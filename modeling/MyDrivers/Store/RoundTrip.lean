import Mathlib.Data.List.GetD
import MyDrivers.Store.Alias

/-! Writing a string and reading it back. Both loops pass whatever counts they
like, and the settings may change between any two calls. -/
namespace MyDrivers.Store
open Lib Lib.Machine

/-- One round of a loop: the ioctls before the call, the count it passes and the
circumstances of the call. -/
structure Turn where
  ioctls : List IoctlCall
  count : Nat
  env : Env

/-- The count is positive and neither an allocation nor the user copy fails. -/
structure Turn.Smooth (turn : Turn) : Prop where
  count : 0 < turn.count
  running : turn.env.interrupted = false
  full : turn.env.supply.Full
  accessible : turn.count ≤ turn.env.accessible

def settle (s : Session) (calls : List IoctlCall) : Session :=
  ⟨calls.foldl (fun g call => (scullIoctl g call).globals) s.globals, s.dev⟩

/-- The session after a loop, the counts passed with the values returned, and
the bytes still to be written or those read. -/
structure Looped where
  session : Session
  replies : List (Nat × Int)
  bytes : List Byte

def writeAll : List Turn → Session → Int → List Byte → Traced Event Looped
  | [], s, _, data => pure ⟨s, [], data⟩
  | turn :: turns, s, pos, data =>
      if data = [] then pure ⟨s, [], []⟩
      else do
        let s := settle s turn.ioctls
        let chunk := data.take turn.count
        let t ← scullWrite s.globals s.dev chunk pos turn.env
        if t.ret ≤ 0 then
          return ⟨⟨s.globals, t.dev⟩, [(chunk.length, t.ret)], data⟩
        let rest ← writeAll turns ⟨s.globals, t.dev⟩ t.pos (data.drop t.ret.toNat)
        return { rest with replies := (chunk.length, t.ret) :: rest.replies }

def readAll : List Turn → Session → Int → Traced Event Looped
  | [], s, _ => pure ⟨s, [], []⟩
  | turn :: turns, s, pos => do
      let s := settle s turn.ioctls
      let t ← scullRead s.dev turn.count pos turn.env
      if t.ret ≤ 0 then
        return ⟨⟨s.globals, t.dev⟩, [(turn.count, t.ret)], []⟩
      let rest ← readAll turns ⟨s.globals, t.dev⟩ t.pos
      return { rest with
        replies := (turn.count, t.ret) :: rest.replies, bytes := t.bytes ++ rest.bytes }

/-- Write from position 0, open the device again and read from position 0. -/
def roundTrip (s : Session) (writes reads : List Turn) (fFlags : Nat) (data : List Byte) :
    Traced Event (Looped × Looped) := do
  let written ← writeAll writes s 0 data
  let dev ← scullOpen written.session.globals written.session.dev fFlags
  let read ← readAll reads ⟨written.session.globals, dev⟩ 0
  return (written, read)

theorem blockSize_settle (s : Session) (calls : List IoctlCall) (dev : ScullDev) :
    blockSize (settle s calls).globals dev = blockSize s.globals dev := by
  unfold settle
  induction calls generalizing s with
  | nil => rfl
  | cons call calls ih => exact (ih ⟨_, s.dev⟩).trans (blockSize_scullIoctl s.globals call dev)

/-! ## Devices that hold a string -/

/-- The device stores `data` from position 0, in blocks that are all there. -/
structure Holds (quantum qset : Nat) (dev : ScullDev) (data : List Byte) : Prop where
  quantumEq : dev.quantum = quantum
  qsetEq : dev.qset = qset
  shaped : Shaped quantum qset dev.data
  size : dev.size = data.length
  present : ∀ x < data.length,
    (blockIn dev.data (x / (quantum * qset)) (x % (quantum * qset) / quantum)).isSome
  bytes : ∀ x < data.length, byteAt dev x = data.getD x 0

variable {quantum qset : Nat}

theorem holds_trimmed {g : Globals} (dev : ScullDev) (hquantum : g.scullQuantum = quantum)
    (hqset : g.scullQsetN = qset) : Holds quantum qset (trimmed g dev) [] where
  quantumEq := hquantum
  qsetEq := hqset
  shaped := shaped_nil _ _
  size := rfl
  present := by simp
  bytes := by simp

theorem int32_of_item_lt {item : Nat} (h : item < 2147483648) : int32 item = item :=
  int32_eq_self (by omega) (by omega)

theorem holds_write (hsound : Sound quantum qset) {g : Globals} {dev : ScullDev}
    {done chunk : List Byte} (h : Holds quantum qset dev done) (hfits : quantum ≤ blockSize g dev)
    (hchunk : 0 < chunk.length) (hitem : done.length / (quantum * qset) < 2147483648)
    (hlength : done.length + chunk.length < 9223372036854775808) {env : Env}
    (hrun : env.interrupted = false) (hfull : env.supply.Full)
    (haccessible : chunk.length ≤ env.accessible) :
    (scullWrite g dev chunk done.length env).Safe (Within quantum qset) fun t =>
      ∃ n, 0 < n ∧ n ≤ chunk.length ∧ t.ret = n ∧ t.pos = (done.length + n : Nat) ∧
        blockSize g t.dev = blockSize g dev ∧ Holds quantum qset t.dev (done ++ chunk.take n) := by
  have hquantumPos := hsound.quantum_pos
  have hqsetPos := hsound.qset_pos
  refine ((scullWrite_safe hsound.divides h.quantumEq h.qsetEq h.shaped hfits chunk
    (Int.natCast_nonneg _) hrun).and_returns (scullWrite_effect g dev chunk _ env)).mono ?_
  rintro t ⟨⟨addr, hlocated, hwritten⟩, -, heffect⟩
  have haddr := located_sound hsound hlocated
  have hexact := int32_of_item_lt hitem
  rw [hexact] at haddr
  have hcount := clamped_located hsound h.quantumEq hlocated chunk
  have hcolumn : addr.qPos.toNat = done.length % quantum := by rw [haddr]; rfl
  have hroom : done.length % quantum < quantum := Nat.mod_lt _ hquantumPos
  have hcompletes : Completes g dev chunk done.length env addr :=
    write_completes hsound h.quantumEq h.qsetEq hlocated (by rw [haddr]; exact Int.natCast_nonneg _)
      hrun hfull (by omega)
  obtain ⟨hret, hsize, hpos⟩ := hcompletes.effect heffect
  rw [int64_eq_self (by omega) (by omega)] at hret
  rw [h.size, int64_eq_self (by omega) (by omega), ← Int.natCast_add] at hsize
  rw [int64_eq_self (by omega) (by omega), ← Int.natCast_add] at hpos
  obtain ⟨count, hwidth, hbytes, hblock⟩ := hwritten.done (by omega)
  obtain rfl : count = clamped dev addr chunk := hwidth.trans hcount.symm
  generalize hn : clamped dev addr chunk = n at hcount hret hsize hpos hbytes
  have hpositive : 0 < n := by omega
  have hle : n ≤ chunk.length := by omega
  have hdevQuantum : t.dev.quantum = quantum := by rw [hwritten.geometry]; exact h.quantumEq
  have hdevQset : t.dev.qset = qset := by rw [hwritten.geometry]; exact h.qsetEq
  have hlengthAfter : (done ++ chunk.take n).length = done.length + n := by
    rw [List.length_append, List.length_take, Nat.min_eq_left hle]
  -- the new bytes are in the row where the string ended
  have hrow (k : Nat) (hk : k < n) := split_add (x := done.length) (k := k) hquantumPos hqsetPos
    (by omega)
  refine ⟨n, hpositive, hle, hret, hpos, by rw [hwritten.geometry]; rfl, hdevQuantum, hdevQset,
    hwritten.shaped, by rw [hsize, hlengthAfter], fun x hx => ?_, fun x hx => ?_⟩
  · rw [hlengthAfter] at hx
    by_cases hold : x < done.length
    · exact hwritten.stored.kept _ _ (h.present x hold)
    · obtain ⟨k, rfl⟩ := Nat.exists_eq_add_of_le (Nat.le_of_not_lt hold)
      obtain ⟨hitemEq, hrowEq, -⟩ := hrow k (by omega)
      rw [hitemEq, hrowEq]
      rw [haddr] at hblock
      exact hblock
  · rw [hlengthAfter] at hx
    have hpasted := byteAt_pasted hsound h.quantumEq h.qsetEq hlocated hwritten hexact
      (by rw [hbytes, List.length_take, Nat.min_eq_left hle]; omega) x
    rw [Nat.div_add_mod', hbytes] at hpasted
    rw [hpasted]
    by_cases hold : x < done.length
    · rw [Ring.paste_of_lt hold, h.bytes x hold, List.getD_append _ _ _ _ hold]
    · obtain ⟨k, rfl⟩ := Nat.exists_eq_add_of_le (Nat.le_of_not_lt hold)
      have hk : k < (chunk.take n).length := by
        rw [List.length_take]
        omega
      rw [Ring.paste_at hk, List.getD_append_right _ _ _ _ (by omega), Nat.add_sub_cancel_left,
        List.getD_eq_getElem _ _ hk]

theorem holds_read (hsound : Sound quantum qset) {dev : ScullDev} {data : List Byte}
    (h : Holds quantum qset dev data) {pos count : Nat} (hpos : pos < data.length)
    (hcount : 0 < count) (hitem : pos / (quantum * qset) < 2147483648)
    (hlength : data.length < 9223372036854775808) {env : Env}
    (hrun : env.interrupted = false) (haccessible : count ≤ env.accessible) :
    (scullRead dev count pos env).Safe (Within quantum qset) fun t =>
      ∃ n, 0 < n ∧ n ≤ count ∧ pos + n ≤ data.length ∧ t.ret = n ∧ t.pos = (pos + n : Nat) ∧
        t.bytes = (data.drop pos).take n ∧ Holds quantum qset t.dev data := by
  have hquantumPos := hsound.quantum_pos
  have hqsetPos := hsound.qset_pos
  have hsize := h.size
  refine (scullRead_safe hsound.divides h.quantumEq h.qsetEq h.shaped count
    (Int.natCast_nonneg _) (by omega) hrun).mono ?_
  rintro t ⟨addr, hlocated, hread⟩
  have haddr := located_sound hsound hlocated
  rw [int32_of_item_lt hitem] at haddr
  have hpresent := h.present pos hpos
  have hcolumn : addr.qPos.toNat = pos % quantum := by rw [haddr]; rfl
  have hroom : pos % quantum < quantum := Nat.mod_lt _ hquantumPos
  have hleft : uint64 (int64 (dev.size - pos)) = data.length - pos := by
    rw [hsize, int64_eq_self (by omega) (by omega), uint64_eq_toNat (by omega) (by omega)]
    omega
  have hholds : Holds quantum qset t.dev data := by
    have hextended := hread.extended
    rw [hread.geometry]
    refine ⟨h.quantumEq, h.qsetEq, hextended.shaped h.shaped, hsize, fun x hx => ?_,
      fun x hx => ?_⟩
    · rw [hextended.blockIn]
      exact h.present x hx
    · rw [← h.bytes x hx]
      simp only [byteAt, hextended.cell]
  cases hread.outcome with
  | absent block =>
    rw [haddr] at block
    rcases block with hneg | hnone
    · exact absurd hneg (Int.not_lt.mpr (Int.natCast_nonneg _))
    · simp only [Int.toNat_natCast] at hnone
      rw [hnone] at hpresent
      cases hpresent
  | fault n hn block short => omega
  | done n hn block enough ret bytes position =>
    rw [hleft, hcolumn] at hn
    have hend : pos + n ≤ data.length := by omega
    refine ⟨n, by omega, by omega, hend, ret, ?_, ?_, hholds⟩
    · rw [position, int64_eq_self (by omega) (by omega)]
      omega
    · rw [bytes]
      apply List.ext_getElem
      · simp only [cells, List.length_map, List.length_range, List.length_take, List.length_drop]
        omega
      · intro k hk _
        have hk : k < n := by simpa [cells] using hk
        obtain ⟨hitemEq, hrowEq, hcolumnEq⟩ :=
          split_add (x := pos) (k := k) hquantumPos hqsetPos (by omega)
        have hbyte := h.bytes (pos + k) (by omega)
        rw [byteAt_eq h.quantumEq h.qsetEq, hitemEq, hrowEq, hcolumnEq] at hbyte
        simp only [cells, List.getElem_map, List.getElem_range, List.getElem_take,
          List.getElem_drop]
        rw [haddr]
        simp only [Int.toNat_natCast]
        rw [hbyte, List.getD_eq_getElem _ _ (by omega)]

/-! ## The loops -/

def Served (replies : List (Nat × Int)) : Prop :=
  ∀ reply ∈ replies, 0 < reply.2 ∧ reply.2 ≤ reply.1

theorem Served.cons {count n : Nat} {replies : List (Nat × Int)} (hpos : 0 < n) (hle : n ≤ count)
    (h : Served replies) : Served ((count, (n : Int)) :: replies) := by
  intro reply hreply
  rcases List.mem_cons.mp hreply with rfl | hreply
  · exact ⟨by simpa using hpos, by simpa using hle⟩
  · exact h reply hreply

theorem length_lt_of_item {data : List Byte} (hsound : Sound quantum qset)
    (hdata : (data.length - 1) / (quantum * qset) < 2147483648) :
    data.length < 9223372036854775808 := by
  have hitems : quantum * qset < 2147483648 := by exact_mod_cast hsound.2.2
  have hpositive : 0 < quantum * qset := by exact_mod_cast hsound.item_pos
  rw [Nat.div_lt_iff_lt_mul hpositive] at hdata
  have : 2147483648 * (quantum * qset) ≤ 2147483648 * 2147483648 :=
    Nat.mul_le_mul_left _ (Nat.le_of_lt hitems)
  omega

theorem item_lt_of_inside {data : List Byte} {pos : Nat} (hpos : pos < data.length)
    (hdata : (data.length - 1) / (quantum * qset) < 2147483648) :
    pos / (quantum * qset) < 2147483648 :=
  Nat.lt_of_le_of_lt (Nat.div_le_div_right (by omega)) hdata

/-- Induction on the rounds left: the device holds what has been written so far. -/
theorem writeAll_safe (hsound : Sound quantum qset) {data : List Byte}
    (hdata : (data.length - 1) / (quantum * qset) < 2147483648) (turns : List Turn) :
    ∀ (s : Session) (done left : List Byte), data = done ++ left →
      Holds quantum qset s.dev done → quantum ≤ blockSize s.globals s.dev →
      (∀ turn ∈ turns, turn.Smooth) → left.length ≤ turns.length →
      (writeAll turns s done.length left).Safe (Within quantum qset) fun w =>
        w.bytes = [] ∧ Served w.replies ∧ Holds quantum qset w.session.dev data := by
  induction turns with
  | nil =>
    intro s done left hsplit hholds _ _ hrounds
    have hnothing : left = [] := List.length_eq_zero_iff.mp (by simpa using hrounds)
    subst hnothing
    rw [List.append_nil] at hsplit
    subst hsplit
    exact .pure ⟨rfl, by simp [Served], hholds⟩
  | cons turn turns ih =>
    intro s done left hsplit hholds hfits hturns hrounds
    unfold writeAll
    by_cases hempty : left = []
    · subst hempty
      rw [List.append_nil] at hsplit
      subst hsplit
      rw [if_pos rfl]
      exact .pure ⟨rfl, by simp [Served], hholds⟩
    · rw [if_neg hempty]
      have hsmooth := hturns turn List.mem_cons_self
      have hleft : 0 < left.length := List.length_pos_iff.mpr hempty
      have hcount := hsmooth.count
      have hlengths : data.length = done.length + left.length := by
        rw [hsplit, List.length_append]
      have hlong := length_lt_of_item hsound hdata
      have hchunk : (left.take turn.count).length = min turn.count left.length :=
        List.length_take
      have hroom : quantum ≤ blockSize (settle s turn.ioctls).globals s.dev := by
        rw [blockSize_settle]
        exact hfits
      refine .bind (holds_write hsound hholds hroom (by omega)
        (item_lt_of_inside (by omega) hdata) (by omega) hsmooth.running hsmooth.full
        (by have := hsmooth.accessible; omega)) ?_
      rintro t ⟨n, hpositive, hle, hret, hpos, hsame, hafter⟩
      have hnotDone : ¬ t.ret ≤ 0 := by omega
      have htake : (left.take turn.count).take n = left.take n := by
        rw [List.take_take, Nat.min_eq_left (by omega)]
      rw [if_neg hnotDone, hret, hpos, Int.toNat_natCast]
      rw [htake] at hafter
      have hlonger : (done ++ left.take n).length = done.length + n := by
        rw [List.length_append, List.length_take, Nat.min_eq_left (by omega)]
      have hrest := ih ⟨(settle s turn.ioctls).globals, t.dev⟩ (done ++ left.take n)
        (left.drop n) (by rw [hsplit, List.append_assoc, List.take_append_drop]) hafter
        (by rw [hsame]; exact hroom) (fun other hother => hturns other (List.mem_cons_of_mem _ hother))
        (by rw [List.length_drop]; simp only [List.length_cons] at hrounds; omega)
      rw [hlonger] at hrest
      refine .bind hrest fun w hw => .pure ?_
      exact ⟨hw.1, hw.2.1.cons hpositive hle, hw.2.2⟩

structure ReadToEnd (data : List Byte) (pos : Nat) (r : Looped) : Prop where
  bytes : r.bytes = data.drop pos
  replies : ∃ served count, r.replies = served ++ [(count, 0)] ∧ Served served

theorem readAll_safe (hsound : Sound quantum qset) {data : List Byte}
    (hdata : (data.length - 1) / (quantum * qset) < 2147483648) (turns : List Turn) :
    ∀ (s : Session) (pos : Nat), Holds quantum qset s.dev data → pos ≤ data.length →
      (∀ turn ∈ turns, turn.Smooth) → data.length - pos < turns.length →
      (readAll turns s pos).Safe (Within quantum qset) (ReadToEnd data pos) := by
  induction turns with
  | nil =>
    intro s pos _ _ _ hrounds
    simp at hrounds
  | cons turn turns ih =>
    intro s pos hholds hpos hturns hrounds
    have hsmooth := hturns turn List.mem_cons_self
    unfold readAll
    by_cases hend : pos = data.length
    · have hsize : (settle s turn.ioctls).dev.size ≤ pos := by
        rw [hend]
        exact le_of_eq hholds.size
      have hlast : (scullRead (settle s turn.ioctls).dev turn.count pos turn.env).Safe
          (Within quantum qset) fun t => t.ret = 0 := by
        rw [scullRead_end turn.count hsmooth.running hsize]
        exact .pure rfl
      refine .bind hlast fun t ht => ?_
      rw [ht, if_pos (le_refl _)]
      exact .pure ⟨by rw [hend, List.drop_length], [], turn.count, rfl, by simp [Served]⟩
    · have hinside : pos < data.length := by omega
      refine .bind (holds_read hsound hholds hinside hsmooth.count
        (item_lt_of_inside hinside hdata) (length_lt_of_item hsound hdata) hsmooth.running
        hsmooth.accessible) ?_
      rintro t ⟨n, hpositive, hle, hbound, hret, hposition, hbytes, hafter⟩
      have hnotDone : ¬ t.ret ≤ 0 := by omega
      rw [if_neg hnotDone, hret, hposition]
      refine .bind (ih ⟨_, t.dev⟩ (pos + n) hafter hbound
        (fun other hother => hturns other (List.mem_cons_of_mem _ hother))
        (by simp only [List.length_cons] at hrounds; omega)) ?_
      rintro r ⟨hrest, served, count, hreplies, hserved⟩
      refine .pure ⟨?_, (turn.count, (n : Int)) :: served, count, ?_, hserved.cons hpositive hle⟩
      · rw [hrest, hbytes, ← List.drop_drop, List.take_append_drop]
      · rw [hreplies, List.cons_append]

/-- After a trim under sound settings, a string written chunk by chunk comes back
whole, whatever the chunks, the counts and the ioctls in between. -/
theorem roundTrip_returns {s : Session} {flags readFlags : Nat} {dev : ScullDev}
    (hflags : flags &&& O_ACCMODE = O_WRONLY)
    (hopen : (scullOpen s.globals s.dev flags).result = some dev)
    (hsound : Sound s.globals.scullQuantum s.globals.scullQsetN)
    (hobjects : s.dev.type ≠ .basic → s.globals.scullQuantum ≤ blockSize s.globals s.dev)
    (hreadFlags : readFlags &&& O_ACCMODE ≠ O_WRONLY) {data : List Byte}
    (hdata : (data.length - 1) / (s.globals.scullQuantum * s.globals.scullQsetN).toNat <
      2147483648)
    {writes reads : List Turn} (hwrites : ∀ turn ∈ writes, turn.Smooth)
    (hreads : ∀ turn ∈ reads, turn.Smooth) (hwriteRounds : data.length ≤ writes.length)
    (hreadRounds : data.length < reads.length) :
    ∃ w r, (roundTrip ⟨s.globals, dev⟩ writes reads readFlags data).result = some (w, r) ∧
      w.bytes = [] ∧ Served w.replies ∧ r.bytes = data ∧
      ∃ served count, r.replies = served ++ [(count, 0)] ∧ Served served := by
  obtain ⟨quantum, qset, hquantum, hqset, -, -, hsettings⟩ := hsound.toNat
  have htrimmed : dev = trimmed s.globals s.dev := by
    rw [scullOpen, if_pos hflags] at hopen
    exact scullTrim_returns _ _ dev hopen
  have hfits : quantum ≤ blockSize s.globals dev := by
    subst htrimmed
    cases htype : s.dev.type with
    | basic =>
      have := hsound.divides.2.1
      simp only [blockSize, trimmed, htype]
      rw [hquantum, uint64_natCast (by omega)]
    | c =>
      have := hobjects (by simp [htype])
      simp only [blockSize, trimmed, htype] at this ⊢
      omega
    | p =>
      have := hobjects (by simp [htype])
      simp only [blockSize, trimmed, htype] at this ⊢
      omega
  rw [hquantum, hqset, ← Int.natCast_mul, Int.toNat_natCast] at hdata
  have hstart : Holds quantum qset dev [] := htrimmed ▸ holds_trimmed s.dev hquantum hqset
  have hwrite := writeAll_safe hsettings hdata writes ⟨s.globals, dev⟩ [] data rfl hstart hfits
    hwrites hwriteRounds
  have htrip : (roundTrip ⟨s.globals, dev⟩ writes reads readFlags data).Safe
      (Within quantum qset) fun wr => (wr.1.bytes = [] ∧ Served wr.1.replies) ∧
        ReadToEnd data 0 wr.2 := by
    unfold roundTrip
    refine .bind hwrite fun w hw => ?_
    rw [scullOpen, if_neg hreadFlags, pure_bind]
    refine .bind (readAll_safe hsettings hdata reads ⟨_, w.session.dev⟩ 0 hw.2.2 (Nat.zero_le _)
      hreads (by omega)) fun r hr => .pure ⟨⟨hw.1, hw.2.1⟩, hr⟩
  obtain ⟨⟨w, r⟩, hresult, ⟨hleft, hserved⟩, hread⟩ := htrip.ends
  exact ⟨w, r, hresult, hleft, hserved, hread.bytes, hread.replies⟩

def twoBytes : Turn := ⟨[⟨SCULL_IOCTQUANTUM, 7, true, true, none, true⟩], 2, .calm⟩

theorem twoBytes_smooth (rounds : Nat) : ∀ turn ∈ List.replicate rounds twoBytes, turn.Smooth := by
  intro turn hturn
  rw [List.eq_of_mem_replicate hturn]
  exact ⟨by decide, rfl, calm_full, by decide⟩

theorem roundTrip_five :
    ∃ w r, (roundTrip (.init ⟨3, 2, 64, 4096⟩ .basic 0) (List.replicate 5 twoBytes)
        (List.replicate 6 twoBytes) 0 [1, 2, 3, 4, 5]).result = some (w, r) ∧
      w.bytes = [] ∧ Served w.replies ∧ r.bytes = [1, 2, 3, 4, 5] ∧
      ∃ served count, r.replies = served ++ [(count, 0)] ∧ Served served :=
  roundTrip_returns (s := .init ⟨3, 2, 64, 4096⟩ .basic 0)
    (show O_WRONLY &&& O_ACCMODE = O_WRONLY by decide) (by decide +kernel) (by decide) (by decide)
    (by decide) (by decide) (twoBytes_smooth 5) (twoBytes_smooth 6) (by decide) (by decide)

end MyDrivers.Store
