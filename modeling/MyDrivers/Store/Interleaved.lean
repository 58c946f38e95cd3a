import MyDrivers.Store.Calls

/-! Calls that overlap on one device. A read or write first takes its snapshot
and later, when it has the semaphore, runs its locked part in one step; a trim
takes no semaphore and can fall in between. -/
namespace MyDrivers.Store
open Lib Lib.Machine

inductive Request where
  | read (count : Nat) (pos : Int)
  | write (buff : List Byte) (pos : Int)
  deriving DecidableEq

inductive Pending where
  | read (count : Nat) (pos : Int) (snap : ReadSnapshot)
  | write (buff : List Byte) (pos : Int) (snap : WriteSnapshot)
  deriving DecidableEq

def Request.pos : Request → Int
  | .read _ pos => pos
  | .write _ pos => pos

/-- The part of a call before `down_interruptible`. -/
def Request.snapshot (dev : ScullDev) : Request → Pending
  | .read count pos => .read count pos (readSnapshot dev pos)
  | .write buff pos => .write buff pos (writeSnapshot dev)

/-- The part of a call from `down_interruptible` on. -/
def Pending.locked (g : Globals) (dev : ScullDev) (env : Env) : Pending → Traced Event Transfer
  | .read count pos snap => scullReadLocked snap dev count pos env
  | .write buff pos snap => scullWriteLocked g snap dev buff pos env

def Pending.request : Pending → Request
  | .read count pos _ => .read count pos
  | .write buff pos _ => .write buff pos

def Request.call (env : Env) : Request → Call
  | .read count pos => .scullRead count pos env
  | .write buff pos => .scullWrite buff pos env

structure Shared where
  globals : Globals
  dev : ScullDev
  pending : Nat → Option Pending

def Shared.init (g : Globals) (type : ScullType) (order : Nat) : Shared :=
  ⟨g, scullInitDev g type order, fun _ => none⟩

/-- One step of the system; calls are told apart by a number. -/
inductive Move where
  | snapshot (id : Nat) (request : Request)
  | locked (id : Nat) (request : Request) (env : Env) (reply : Reply)
  | opened (fFlags : Nat)
  | ioctl (call : IoctlCall) (reply : Reply)

inductive Moves (s : Shared) : Move → Shared → Prop
  | snapshot (id : Nat) (request : Request) (idle : s.pending id = none)
      (offered : 0 ≤ request.pos ∧ request.pos < 9223372036854775808) :
      Moves s (.snapshot id request)
        { s with pending := Function.update s.pending id (some (request.snapshot s.dev)) }
  | locked (id : Nat) (p : Pending) (env : Env) (t : Transfer) (waiting : s.pending id = some p)
      (returned : (p.locked s.globals s.dev env).result = some t) :
      Moves s (.locked id p.request env ⟨t.ret, t.pos, t.bytes⟩)
        ⟨s.globals, t.dev, Function.update s.pending id none⟩
  | opened (fFlags : Nat) (dev : ScullDev)
      (returned : (scullOpen s.globals s.dev fFlags).result = some dev) :
      Moves s (.opened fFlags) { s with dev := dev }
  | ioctl (call : IoctlCall) :
      Moves s (.ioctl call ⟨(scullIoctl s.globals call).ret, 0, []⟩)
        { s with globals := (scullIoctl s.globals call).globals }

/-- The undivided calls of a run, each where its locked part ran. -/
def linearized : Move → Option (Call × Reply)
  | .snapshot _ _ => none
  | .locked _ request env reply => some (request.call env, reply)
  | .opened fFlags => some (.scullOpen fFlags, ⟨0, 0, []⟩)
  | .ioctl call reply => some (.scullIoctl call, reply)

/-- Every pending request is one the VFS made. -/
def Offers (s : Shared) : Prop :=
  ∀ id p, s.pending id = some p →
    0 ≤ p.request.pos ∧ p.request.pos < 9223372036854775808

theorem request_snapshot (dev : ScullDev) (request : Request) :
    (request.snapshot dev).request = request := by
  cases request <;> rfl

theorem offers_moves {s t : Shared} {m : Move} (h : Offers s) (hmove : Moves s m t) :
    Offers t := by
  cases hmove with
  | snapshot id request idle offered =>
    intro other p hp
    by_cases hother : other = id
    · subst hother
      simp only [Function.update_self, Option.some.injEq] at hp
      rw [← hp, request_snapshot]
      exact offered
    · exact h other p (by simpa [Function.update_of_ne hother] using hp)
  | locked id p env t waiting returned =>
    intro other q hq
    by_cases hother : other = id
    · subst hother
      simp at hq
    · exact h other q (by simpa [Function.update_of_ne hother] using hq)
  | opened => exact h
  | ioctl => exact h

/-! ## When a locked part agrees with the undivided call -/

/-- The counts a read copies under its snapshot and under the current size. -/
def copiesAlike (dev : ScullDev) (count : Nat) (pos : Int) (snap : ReadSnapshot) (env : Env)
    (addr : Address) (block : Block) : Prop :=
  let before := readCount snap addr.qPos count
  let now := readCount (readSnapshot dev pos) addr.qPos count
  before = now ∨
    -- both copies fault at the same byte
    env.accessible < before ∧ env.accessible < now ∧
      0 ≤ addr.qPos ∧ addr.qPos + now ≤ block.bytes.length

/-- The snapshot gives what a snapshot taken now would give. A write is
interrupted or finds the settings unchanged. A read is interrupted, or at the
end of the file, or its position splits as it would now and there it finds no
block or copies alike. -/
def Current (dev : ScullDev) (env : Env) : Pending → Prop
  | .write _ _ snap => env.interrupted = true ∨ snap = writeSnapshot dev
  | .read count pos snap =>
      env.interrupted = true ∨ dev.size ≤ pos ∨
        (address (int32 (snap.quantum * snap.qset)) snap.quantum pos).result =
            (address (int32 (dev.quantum * dev.qset)) dev.quantum pos).result ∧
          ∀ addr block,
            (address (int32 (dev.quantum * dev.qset)) dev.quantum pos).result = some addr →
            0 ≤ addr.item → blockIn dev.data addr.item.toNat addr.sPos.toNat = some block →
            copiesAlike dev count pos snap env addr block

theorem copyOut_alike {dev : ScullDev} {addr : Address} {block : Block} {first second : Nat}
    {pos : Int} {accessible : Nat} {t : Transfer}
    (h : first = second ∨ accessible < first ∧ accessible < second ∧ 0 ≤ addr.qPos ∧
      addr.qPos + second ≤ block.bytes.length)
    (hreturned : (copyOut dev addr block first pos accessible).result = some t) :
    (copyOut dev addr block second pos accessible).result = some t := by
  rcases h with rfl | ⟨hfirst, hsecond, hlow, hfit⟩
  · exact hreturned
  · unfold copyOut at hreturned ⊢
    have hallowed : (Event.bytes addr.qPos second block.bytes.length).allowed = true := by
      simp [Event.allowed, hlow, hfit]
    rw [Traced.result_bind] at hreturned
    obtain ⟨_, -, hcopied⟩ := Option.bind_eq_some_iff.mp hreturned
    rw [if_pos hfirst] at hcopied
    rw [Traced.result_bind, Traced.result_guarded hallowed, Option.bind_some, if_pos hsecond]
    rw [← hcopied]
    simp only [Traced.result_pure, List.take_take, Nat.min_eq_left (Nat.le_of_lt hfirst),
      Nat.min_eq_left (Nat.le_of_lt hsecond)]

theorem scullReadLocked_current {dev : ScullDev} {count : Nat} {pos : Int} {snap : ReadSnapshot}
    {env : Env} {t : Transfer} (h : Current dev env (.read count pos snap))
    (hreturned : (scullReadLocked snap dev count pos env).result = some t) :
    (scullRead dev count pos env).result = some t := by
  unfold scullRead
  unfold scullReadLocked at hreturned ⊢
  by_cases hinterrupted : env.interrupted = true
  · rw [if_pos hinterrupted] at hreturned ⊢
    exact hreturned
  rw [if_neg hinterrupted] at hreturned ⊢
  by_cases hend : pos ≥ dev.size
  · rw [if_pos hend] at hreturned ⊢
    exact hreturned
  rw [if_neg hend] at hreturned ⊢
  obtain ⟨hsplit, hcopies⟩ := (h.resolve_left hinterrupted).resolve_left hend
  rw [Traced.result_bind, hsplit] at hreturned
  obtain ⟨addr, haddr, hreturned⟩ := Option.bind_eq_some_iff.mp hreturned
  rw [Traced.result_bind] at hreturned
  obtain ⟨dptr, hdptr, hreturned⟩ := Option.bind_eq_some_iff.mp hreturned
  have hwalk := (scullFollow_safe 0 0 dev.data addr.item env.supply).returns dptr hdptr
  simp only [readSnapshot]
  rw [Traced.result_bind, haddr, Option.bind_some, Traced.result_bind, hdptr, Option.bind_some]
  cases hslots : dptr.node.bind (slotsAt dptr.head) with
  | none =>
    rw [hslots] at hreturned
    exact hreturned
  | some array =>
    obtain ⟨node, hnode, harray⟩ := Option.bind_eq_some_iff.mp hslots
    have hitem := (hwalk.reached node hnode).1
    have hlookup := blockIn_eq_blockAt harray addr.sPos
    rw [hwalk.extended.blockIn, show node = addr.item.toNat by omega] at hlookup
    rw [hslots, Traced.result_bind] at hreturned
    obtain ⟨_, htouch, hreturned⟩ := Option.bind_eq_some_iff.mp hreturned
    simp only
    rw [Traced.result_bind, htouch, Option.bind_some]
    cases hblock : array.blockAt addr.sPos with
    | none =>
      rw [hblock] at hreturned
      exact hreturned
    | some block =>
      rw [hblock] at hreturned hlookup
      exact copyOut_alike (hcopies addr block haddr (by omega) hlookup) hreturned

theorem locked_current {g : Globals} {dev : ScullDev} {env : Env} {p : Pending} {t : Transfer}
    (h : Current dev env p) (hreturned : (p.locked g dev env).result = some t) (s : Session)
    (hs : s = ⟨g, dev⟩) :
    ((p.request.call env).run s).result =
      some (⟨g, t.dev⟩, ⟨t.ret, t.pos, t.bytes⟩) := by
  subst hs
  cases p with
  | read count pos snap =>
    have hread := scullReadLocked_current h hreturned
    simp only [Pending.request, Request.call, Call.run, Traced.result_bind, hread]
    rfl
  | write buff pos snap =>
    have hwrite : (scullWrite g dev buff pos env).result = some t := by
      rcases h with hinterrupted | hsnap
      · rw [scullWrite_interrupted g dev buff pos hinterrupted]
        simp only [Pending.locked, scullWriteLocked, if_pos hinterrupted] at hreturned
        exact hreturned
      · subst hsnap
        exact hreturned
    simp only [Pending.request, Request.call, Call.run, Traced.result_bind, hwrite]
    rfl

/-! ## Runs -/

def RunsCurrent (s : Shared) : Move → Prop
  | .locked id _ env _ => ∀ p, s.pending id = some p → Current s.dev env p
  | _ => True

def WithinFile (s : Shared) : Move → Prop
  | .locked _ (.read _ pos) _ reply => 0 < reply.ret → reply.ret ≤ s.dev.size - pos
  | _ => True

theorem scullRead_le_left {dev : ScullDev} (hsize : dev.size < 9223372036854775808)
    (count : Nat) {pos : Int} (hpos : 0 ≤ pos) (env : Env) :
    (scullRead dev count pos env).Returns fun t => 0 < t.ret → t.ret ≤ dev.size - pos := by
  have hnegative : ¬ 0 < -ERESTARTSYS ∧ ¬ 0 < -EFAULT := by decide
  obtain ⟨hinterrupted, hfault⟩ := hnegative
  unfold scullRead scullReadLocked
  split
  · exact .pure fun h => absurd h hinterrupted
  split
  · exact .pure fun h => absurd h (lt_irrefl _)
  next hend =>
  refine .skip fun addr => .skip fun dptr => ?_
  split
  · exact .pure fun h => absurd h (lt_irrefl _)
  · refine .skip fun _ => ?_
    split
    · exact .pure fun h => absurd h (lt_irrefl _)
    · have hcount : readCount (readSnapshot dev pos) addr.qPos count ≤
          (dev.size - pos).toNat := by
        have hleft : uint64 (int64 (dev.size - pos)) = (dev.size - pos).toNat := by
          rw [int64_eq_self (by omega) (by omega), uint64_eq_toNat (by omega) (by omega)]
        simp only [readCount, readSnapshot, hleft]
        split <;> split <;> omega
      generalize readCount (readSnapshot dev pos) addr.qPos count = n at hcount ⊢
      have hret : int64 (n : Int) = n := int64_eq_self (by omega) (by omega)
      unfold copyOut
      refine .skip fun _ => ?_
      rw [hret]
      split
      · exact .pure fun h => absurd h hfault
      · refine .pure fun _ => ?_
        simp only
        omega

/-- A run whose locked parts all have current snapshots is a run of undivided
calls, with the same replies and the same device at the end, and its next
locked read stays inside the file. -/
theorem linearizes (g : Globals) (type : ScullType) (order : Nat) {labels : List Move}
    {t : Shared} (run : Run (While RunsCurrent Moves) (.init g type order) labels t) :
    Run Step (.init g type order) (labels.filterMap linearized) ⟨t.globals, t.dev⟩ ∧
      ∀ m u, While RunsCurrent Moves t m u → WithinFile t m := by
  have hinv : Run Step (.init g type order) (labels.filterMap linearized) ⟨t.globals, t.dev⟩ ∧
      Offers t := by
    refine run.invariant (fun labels s => Run Step (.init g type order)
      (labels.filterMap linearized) ⟨s.globals, s.dev⟩ ∧ Offers s)
      ⟨.nil, fun _ _ h => by simp [Shared.init] at h⟩ ?_
    rintro labels s m u - ⟨hrun, hoffers⟩ ⟨hcurrent, hmove⟩
    refine ⟨?_, offers_moves hoffers hmove⟩
    rw [List.filterMap_append]
    cases hmove with
    | snapshot id request idle offered =>
      have hnone : [Move.snapshot id request].filterMap linearized = [] := rfl
      rw [hnone, List.append_nil]
      exact hrun
    | locked id p env t waiting returned =>
      refine hrun.snoc ⟨?_, locked_current (hcurrent p waiting) returned _ rfl⟩
      have hpos := hoffers id p waiting
      cases p <;> exact hpos
    | opened fFlags dev returned =>
      refine hrun.snoc ⟨trivial, ?_⟩
      simp only [Call.run, Traced.result_bind, returned]
      rfl
    | ioctl call => exact hrun.snoc ⟨trivial, rfl⟩
  refine ⟨hinv.1, ?_⟩
  rintro m u ⟨hcurrent, hmove⟩
  cases hmove with
  | locked id p env transfer waiting returned =>
    cases p with
    | write buff pos snap => trivial
    | read count pos snap =>
      have hread := scullReadLocked_current (hcurrent _ waiting) returned
      exact scullRead_le_left (size_lt hinv.1) count (hinv.2 id _ waiting).1 env _ hread
  | snapshot => trivial
  | opened => trivial
  | ioctl => trivial

def tiny : Shared := .init ⟨4, 2, 64, 4096⟩ .basic 0

def oneTwoThree : ScullDev :=
  ⟨[⟨0, some ⟨1, [some ⟨2, .kmalloc, [1, 2, 3, 0]⟩, none]⟩⟩], 4, 2, 3, 0, .basic⟩

def tinyWrite : Pending := (Request.write [1, 2, 3] 0).snapshot tiny.dev

def tinyRead : Pending := (Request.read 5 0).snapshot tiny.dev

def writeOneTwoThree : Move := .locked 0 (.write [1, 2, 3] 0) .calm ⟨3, 3, [1, 2, 3]⟩

theorem tiny_write {pending : Nat → Option Pending} (waiting : pending 0 = some tinyWrite) :
    Moves ⟨tiny.globals, tiny.dev, pending⟩ writeOneTwoThree
      ⟨tiny.globals, oneTwoThree, Function.update pending 0 none⟩ := by
  have returned : (tinyWrite.locked tiny.globals tiny.dev .calm).result =
      some ⟨3, oneTwoThree, 3, [1, 2, 3]⟩ := by decide +kernel
  exact Moves.locked (s := ⟨tiny.globals, tiny.dev, pending⟩) 0 tinyWrite .calm
    ⟨3, oneTwoThree, 3, [1, 2, 3]⟩ waiting returned

theorem snapshot_runs {g : Globals} {dev : ScullDev} {pending : Nat → Option Pending} (id : Nat)
    (request : Request) (idle : pending id = none)
    (offered : 0 ≤ request.pos ∧ request.pos < 9223372036854775808) :
    While RunsCurrent Moves ⟨g, dev, pending⟩ (.snapshot id request)
      ⟨g, dev, Function.update pending id (some (request.snapshot dev))⟩ :=
  ⟨trivial, Moves.snapshot (s := ⟨g, dev, pending⟩) id request idle offered⟩

theorem locked_runs {g : Globals} {dev : ScullDev} {pending : Nat → Option Pending} (id : Nat)
    (p : Pending) {env : Env} {t : Transfer} (waiting : pending id = some p)
    (current : Current dev env p) (returned : (p.locked g dev env).result = some t) :
    While RunsCurrent Moves ⟨g, dev, pending⟩ (.locked id p.request env ⟨t.ret, t.pos, t.bytes⟩)
      ⟨g, t.dev, Function.update pending id none⟩ := by
  refine ⟨fun q hq => ?_, Moves.locked (s := ⟨g, dev, pending⟩) id p env t waiting returned⟩
  cases waiting.symm.trans hq
  exact current

def appended : ScullDev :=
  ⟨[⟨0, some ⟨1, [some ⟨2, .kmalloc, [1, 2, 3, 9]⟩, none]⟩⟩], 4, 2, 4, 0, .basic⟩

def readThree : Pending := (Request.read 3 0).snapshot oneTwoThree

def appendNine : Pending := (Request.write [9] 3).snapshot oneTwoThree

theorem readThree_current : Current appended .calm readThree := by
  refine .inr (.inr ⟨rfl, fun addr block haddr _ _ => .inl ?_⟩)
  have hsplit : (address (int32 (appended.quantum * appended.qset)) appended.quantum 0).result =
      some ⟨0, 0, 0⟩ := by decide +kernel
  cases hsplit.symm.trans haddr
  decide +kernel

theorem linearizes_write : ∃ s,
    Run (While RunsCurrent Moves) tiny
      [.snapshot 0 (.write [1, 2, 3] 0), writeOneTwoThree, .snapshot 1 (.read 3 0),
        .snapshot 2 (.write [9] 3), .locked 2 (.write [9] 3) .calm ⟨1, 4, [9]⟩,
        .locked 1 (.read 3 0) .calm ⟨3, 3, [1, 2, 3]⟩] s ∧
    Run Step (.init ⟨4, 2, 64, 4096⟩ .basic 0)
      [(.scullWrite [1, 2, 3] 0 .calm, ⟨3, 3, [1, 2, 3]⟩), (.scullWrite [9] 3 .calm, ⟨1, 4, [9]⟩),
        (.scullRead 3 0 .calm, ⟨3, 3, [1, 2, 3]⟩)] ⟨s.globals, s.dev⟩ := by
  have stored : (tinyWrite.locked tiny.globals tiny.dev .calm).result =
      some ⟨3, oneTwoThree, 3, [1, 2, 3]⟩ := by decide +kernel
  have longer : (appendNine.locked tiny.globals oneTwoThree .calm).result =
      some ⟨1, appended, 4, [9]⟩ := by decide +kernel
  have handed : (readThree.locked tiny.globals appended .calm).result =
      some ⟨3, appended, 3, [1, 2, 3]⟩ := by decide +kernel
  have first : Run (While RunsCurrent Moves) tiny _ _ :=
    .single (snapshot_runs 0 (.write [1, 2, 3] 0) rfl (by decide))
  have second := first.snoc (locked_runs 0 tinyWrite (Function.update_self ..) (.inr rfl) stored)
  have third := second.snoc (snapshot_runs 1 (.read 3 0) rfl (by decide))
  have fourth := third.snoc (snapshot_runs 2 (.write [9] 3) rfl (by decide))
  have fifth := fourth.snoc (locked_runs 2 appendNine (Function.update_self ..) (.inr rfl) longer)
  have run := fifth.snoc (locked_runs 1 readThree rfl readThree_current handed)
  exact ⟨_, run, (linearizes ⟨4, 2, 64, 4096⟩ .basic 0 run).1⟩

theorem stale_read :
    ∃ s, Run Moves tiny
        [.snapshot 1 (.read 5 0), .snapshot 0 (.write [1, 2, 3] 0), writeOneTwoThree,
          .locked 1 (.read 5 0) .calm ⟨0, 0, []⟩] s ∧
      (scullRead s.dev 5 0 .calm).result = some ⟨3, s.dev, 3, [1, 2, 3]⟩ := by
  have first := Moves.snapshot (s := tiny) 1 (.read 5 0) rfl (by decide)
  have second := Run.snoc (Run.single first) (.snapshot 0 (.write [1, 2, 3] 0) rfl (by decide))
  have third := second.snoc (tiny_write (Function.update_self ..))
  have returned : (tinyRead.locked tiny.globals oneTwoThree .calm).result =
      some ⟨0, oneTwoThree, 0, []⟩ := by decide +kernel
  have fourth := third.snoc (.locked 1 tinyRead .calm ⟨0, oneTwoThree, 0, []⟩ rfl returned)
  exact ⟨_, fourth, by decide +kernel⟩

end MyDrivers.Store
