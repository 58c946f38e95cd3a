import MyDrivers.Lib.Progress
import MyDrivers.Store.Ledger

/-! Opens for writing that overlap. `scull_open` trims the device without its semaphore, so
the statements of several trims come in any order. Two of them that have both found the
list free it twice. -/
namespace MyDrivers.Store.Overlap
open Lib

/-- Where a trim stands, with the list that begins at `dptr`. -/
inductive Pc where
  | entry
  | node (dptr : List ScullQset)
  | slots (array : SlotArray) (i : Nat) (dptr : ScullQset) (next : List ScullQset)
  | freeNode (dptr : ScullQset) (next : List ScullQset)
  | clearSize
  | clearData
  | setQset
  | setQuantum
  | returned

/-- `found` tells whether `dev->data` was not `NULL` when it was loaded. -/
structure Trimmer where
  pc : Pc
  found : Bool

/-- A statement uses memory that is not allocated, or leaves this device, these objects and
the next statement. -/
inductive Effect where
  | faults
  | goes (dev : ScullDev) (live : Multiset Object) (pc : Pc)

def Effect.touch (dev : ScullDev) (live : Multiset Object) (object : Object) (pc : Pc) : Effect :=
  if object ∈ live then .goes dev live pc else .faults

def Effect.free (dev : ScullDev) (live : Multiset Object) (object : Object) (pc : Pc) : Effect :=
  if object ∈ live then .goes dev (live.erase object) pc else .faults

/-- The next statement of `scull_trim`; the pointers `next` and `data` are loaded at once. -/
def Pc.step (g : Globals) (dev : ScullDev) (live : Multiset Object) : Pc → Option Effect
  | .entry => some (.goes dev live (.node dev.data))
  | .node [] => some (.goes dev live .clearSize)
  | .node (dptr :: next) =>
      some (.touch dev live (dptr.addr, .kmalloc) (match dptr.data with
        | some array => .slots array 0 dptr next
        | none => .freeNode dptr next))
  | .slots array i dptr next =>
      if (i : Int) < dev.qset then
        -- `data[i]` must be in the array, and the array allocated
        if (array.addr, .kmalloc) ∈ live ∧ i < array.slots.length then
          match array.slots[i]?.join with
          | some block =>
              some (.free dev live (block.addr, freedVia dev) (.slots array (i + 1) dptr next))
          | none => some (.goes dev live (.slots array (i + 1) dptr next))
        else some .faults
      else some (.free dev live (array.addr, .kmalloc) (.freeNode dptr next))
  | .freeNode dptr next => some (.free dev live (dptr.addr, .kmalloc) (.node next))
  | .clearSize => some (.goes { dev with size := 0 } live .clearData)
  | .clearData => some (.goes { dev with data := [] } live .setQset)
  | .setQset => some (.goes { dev with qset := g.scullQsetN } live .setQuantum)
  | .setQuantum => some (.goes { dev with quantum := g.scullQuantum } live .returned)
  | .returned => none

structure World (ι : Type) where
  globals : Globals
  dev : ScullDev
  live : Multiset Object
  trimmers : ι → Trimmer
  faulted : Bool

def Trimmer.goes (trimmer : Trimmer) (dev : ScullDev) (pc : Pc) : Trimmer :=
  match trimmer.pc with
  | .entry => ⟨pc, dev.data ≠ []⟩
  | _ => ⟨pc, trimmer.found⟩

section Steps
variable {ι : Type} [DecidableEq ι]

def World.goes (w : World ι) (i : ι) (dev : ScullDev) (live : Multiset Object) (pc : Pc) : World ι :=
  { w with
    dev := dev
    live := live
    trimmers := Function.update w.trimmers i ((w.trimmers i).goes w.dev pc) }

def World.step (w : World ι) (i : ι) : Option (World ι) :=
  if w.faulted then none
  else ((w.trimmers i).pc.step w.globals w.dev w.live).map fun
    | .faults => { w with faulted := true }
    | .goes dev live pc => w.goes i dev live pc

def Moves (w : World ι) (i : ι) (w' : World ι) : Prop := w.step i = some w'

end Steps

def World.init {ι : Type} (g : Globals) (dev : ScullDev) : World ι :=
  ⟨g, dev, reachable dev.data, fun _ => ⟨.entry, false⟩, false⟩

/-- Two trims have found the list before either had taken it off the device. -/
def World.Crossed {ι : Type} (w : World ι) : Prop :=
  ∃ i j, i ≠ j ∧ (w.trimmers i).found = true ∧ (w.trimmers j).found = true

/-! ## What one statement does -/

section Statements
variable {g : Globals} {dev dev' : ScullDev} {live live' : Multiset Object} {pc pc' : Pc}

inductive Pc.Goes (g : Globals) (dev : ScullDev) (live : Multiset Object) :
    Pc → ScullDev → Multiset Object → Pc → Prop
  | load : Goes g dev live .entry dev live (.node dev.data)
  | ends : Goes g dev live (.node []) dev live .clearSize
  | array (dptr : ScullQset) (next : List ScullQset) (array : SlotArray)
      (data : dptr.data = some array) (held : (dptr.addr, .kmalloc) ∈ live) :
      Goes g dev live (.node (dptr :: next)) dev live (.slots array 0 dptr next)
  | bare (dptr : ScullQset) (next : List ScullQset) (data : dptr.data = none)
      (held : (dptr.addr, .kmalloc) ∈ live) :
      Goes g dev live (.node (dptr :: next)) dev live (.freeNode dptr next)
  | block (array : SlotArray) (i : Nat) (dptr : ScullQset) (next : List ScullQset) (block : Block)
      (more : (i : Int) < dev.qset) (inside : i < array.slots.length)
      (found : array.slots[i]?.join = some block) (held : (block.addr, freedVia dev) ∈ live) :
      Goes g dev live (.slots array i dptr next) dev (live.erase (block.addr, freedVia dev))
        (.slots array (i + 1) dptr next)
  | hole (array : SlotArray) (i : Nat) (dptr : ScullQset) (next : List ScullQset)
      (more : (i : Int) < dev.qset) (inside : i < array.slots.length)
      (empty : array.slots[i]?.join = none) :
      Goes g dev live (.slots array i dptr next) dev live (.slots array (i + 1) dptr next)
  | freeData (array : SlotArray) (i : Nat) (dptr : ScullQset) (next : List ScullQset)
      (done : ¬ (i : Int) < dev.qset) (held : (array.addr, .kmalloc) ∈ live) :
      Goes g dev live (.slots array i dptr next) dev (live.erase (array.addr, .kmalloc))
        (.freeNode dptr next)
  | freeNode (dptr : ScullQset) (next : List ScullQset) (held : (dptr.addr, .kmalloc) ∈ live) :
      Goes g dev live (.freeNode dptr next) dev (live.erase (dptr.addr, .kmalloc)) (.node next)
  | clearSize : Goes g dev live .clearSize { dev with size := 0 } live .clearData
  | clearData : Goes g dev live .clearData { dev with data := [] } live .setQset
  | setQset : Goes g dev live .setQset { dev with qset := g.scullQsetN } live .setQuantum
  | setQuantum :
      Goes g dev live .setQuantum { dev with quantum := g.scullQuantum } live .returned

theorem touch_goes {object : Object} {next : Pc}
    (h : Effect.touch dev live object next = .goes dev' live' pc') :
    object ∈ live ∧ dev' = dev ∧ live' = live ∧ pc' = next := by
  unfold Effect.touch at h
  split at h
  · next held =>
    cases h
    exact ⟨held, rfl, rfl, rfl⟩
  · cases h

theorem free_goes {object : Object} {next : Pc}
    (h : Effect.free dev live object next = .goes dev' live' pc') :
    object ∈ live ∧ dev' = dev ∧ live' = live.erase object ∧ pc' = next := by
  unfold Effect.free at h
  split at h
  · next held =>
    cases h
    exact ⟨held, rfl, rfl, rfl⟩
  · cases h

theorem step_goes (h : pc.step g dev live = some (.goes dev' live' pc')) :
    pc.Goes g dev live dev' live' pc' := by
  cases pc with
  | entry =>
    cases h
    exact .load
  | node dptr =>
    cases dptr with
    | nil =>
      cases h
      exact .ends
    | cons dptr next =>
      obtain ⟨held, rfl, rfl, rfl⟩ := touch_goes (Option.some.inj h)
      cases hdata : dptr.data with
      | some array => exact .array dptr next array hdata held
      | none => exact .bare dptr next hdata held
  | slots array i dptr next =>
    simp only [Pc.step] at h
    split at h
    · next more =>
      split at h
      · next inside =>
        split at h
        · next block hblock =>
          obtain ⟨held, rfl, rfl, rfl⟩ := free_goes (Option.some.inj h)
          exact .block array i dptr next block more inside.2 hblock held
        · next hhole =>
          cases h
          exact .hole array i dptr next more inside.2 hhole
      · cases h
    · next done =>
      obtain ⟨held, rfl, rfl, rfl⟩ := free_goes (Option.some.inj h)
      exact .freeData array i dptr next done held
  | freeNode dptr next =>
    obtain ⟨held, rfl, rfl, rfl⟩ := free_goes (Option.some.inj h)
    exact .freeNode dptr next held
  | clearSize =>
    cases h
    exact .clearSize
  | clearData =>
    cases h
    exact .clearData
  | setQset =>
    cases h
    exact .setQset
  | setQuantum =>
    cases h
    exact .setQuantum
  | returned => cases h

end Statements

section Moves
variable {ι : Type} [DecidableEq ι] {w w' : World ι} {k : ι}

theorem moves_cases (h : Moves w k w') : w.faulted = false ∧
    ((w.trimmers k).pc.step w.globals w.dev w.live = some .faults ∧
        w' = { w with faulted := true } ∨
      ∃ dev live pc, (w.trimmers k).pc.step w.globals w.dev w.live = some (.goes dev live pc) ∧
        w' = w.goes k dev live pc) := by
  unfold Moves World.step at h
  split at h
  · cases h
  · next hfaulted =>
    refine ⟨by simpa using hfaulted, ?_⟩
    obtain ⟨effect, heffect, rfl⟩ := Option.map_eq_some_iff.mp h
    cases effect with
    | faults => exact .inl ⟨heffect, rfl⟩
    | goes dev live pc => exact .inr ⟨dev, live, pc, heffect, rfl⟩

variable {dev : ScullDev} {live : Multiset Object} {pc : Pc}

@[simp] theorem goes_pc (w : World ι) (k : ι) (dev : ScullDev) (live : Multiset Object) (pc : Pc) :
    ((w.goes k dev live pc).trimmers k).pc = pc := by
  simp only [World.goes, Function.update_self, Trimmer.goes]
  cases (w.trimmers k).pc <;> rfl

theorem goes_other {j : ι} (hj : j ≠ k) :
    (w.goes k dev live pc).trimmers j = w.trimmers j :=
  Function.update_of_ne hj _ _

theorem goes_found_entry (hentry : (w.trimmers k).pc = .entry) :
    ((w.goes k dev live pc).trimmers k).found = decide (w.dev.data ≠ []) := by
  simp only [World.goes, Function.update_self, Trimmer.goes, hentry]

theorem goes_found (hentry : (w.trimmers k).pc ≠ .entry) :
    ((w.goes k dev live pc).trimmers k).found = (w.trimmers k).found := by
  simp only [World.goes, Function.update_self, Trimmer.goes]

end Moves

/-! ## One trim by itself -/

def Pc.rest : Pc → List ScullQset
  | .node dptr => dptr
  | .slots _ _ dptr next => dptr :: next
  | .freeNode dptr next => dptr :: next
  | _ => []

def blocksFrom (array : SlotArray) (i : Nat) : List Object :=
  (array.slots.drop i).filterMap fun slot => slot.map Block.object

def Pc.owed : Pc → Multiset Object
  | .node dptr => reachable dptr
  | .slots array i dptr next =>
      (array.addr, .kmalloc) ::ₘ (blocksFrom array i : Multiset Object) +
        ((dptr.addr, .kmalloc) ::ₘ reachable next)
  | .freeNode dptr next => (dptr.addr, .kmalloc) ::ₘ reachable next
  | _ => 0

/-- The loop of `scull_trim` fits the array, and hands each block to its own allocator. -/
structure Neat (dev : ScullDev) (array : SlotArray) : Prop where
  slots : array.slots.length = dev.qset.toNat
  blocks : ∀ (i : Nat) (block : Block), array.slots[i]?.join = some block → block.via = freedVia dev

def NeatNodes (dev : ScullDev) (nodes : List ScullQset) : Prop :=
  ∀ dptr ∈ nodes, ∀ array, dptr.data = some array → Neat dev array

def Pc.Neat (dev : ScullDev) : Pc → Prop
  | .node dptr => NeatNodes dev dptr
  | .slots array i _ next => Overlap.Neat dev array ∧ i ≤ array.slots.length ∧ NeatNodes dev next
  | .freeNode _ next => NeatNodes dev next
  | _ => True

theorem tidy_neat {dev : ScullDev} (h : Tidy dev dev.data) : NeatNodes dev dev.data := by
  intro dptr hdptr array harray
  obtain ⟨node, hnode, rfl⟩ := List.mem_iff_getElem.mp hdptr
  have hslots : slotsAt dev.data node = some array := by
    rw [slotsAt, List.getElem?_eq_getElem hnode]
    exact harray
  refine ⟨h.slots node array hslots, ?_⟩
  intro i block hblock
  apply h.blocks node i block
  rw [blockIn, hslots]
  exact hblock

section Alone
variable {g : Globals} {dev₀ dev dev' : ScullDev} {live live' : Multiset Object} {pc pc' : Pc}

theorem blocksFrom_succ {array : SlotArray} {i : Nat} (hi : i < array.slots.length) :
    blocksFrom array i = (array.slots[i]?.join.map Block.object).toList ++ blocksFrom array (i + 1) := by
  rw [blocksFrom, List.drop_eq_getElem_cons hi, List.getElem?_eq_getElem hi, Option.join_some]
  cases array.slots[i] <;> rfl

theorem blocksFrom_all {array : SlotArray} {i : Nat} (hi : array.slots.length ≤ i) :
    blocksFrom array i = [] := by
  rw [blocksFrom, List.drop_eq_nil_of_le hi]
  rfl

theorem alone_goes (neat : pc.Neat dev₀) (qset : dev.qset = dev₀.qset)
    (via : freedVia dev = freedVia dev₀) (howed : live = pc.owed) (hentry : pc ≠ .entry)
    (hreturned : pc ≠ .returned) :
    ∃ dev' live' pc', pc.step g dev live = some (.goes dev' live' pc') ∧ live' = pc'.owed ∧
      pc'.Neat dev₀ := by
  subst howed
  cases pc with
  | entry => exact absurd rfl hentry
  | returned => exact absurd rfl hreturned
  | node dptr =>
    cases dptr with
    | nil => exact ⟨_, _, _, rfl, rfl, trivial⟩
    | cons dptr next =>
      have hnext : NeatNodes dev₀ next := fun d hd => neat d (List.mem_cons_of_mem _ hd)
      have held : (dptr.addr, .kmalloc) ∈ (Pc.node (dptr :: next)).owed :=
        Multiset.mem_add.mpr (.inl (Multiset.mem_cons_self _ _))
      simp only [Pc.step, Effect.touch, if_pos held]
      cases hdata : dptr.data with
      | none =>
        refine ⟨_, _, _, rfl, ?_, hnext⟩
        simp [Pc.owed, ScullQset.reachable, hdata]
      | some array =>
        refine ⟨_, _, _, rfl, ?_, neat dptr List.mem_cons_self array hdata, Nat.zero_le _, hnext⟩
        simp only [Pc.owed, reachable_cons, ScullQset.reachable, hdata, Option.map_some,
          Option.getD_some, SlotArray.reachable, blocksFrom, List.drop_zero, SlotArray.blocks,
          Multiset.cons_add, Multiset.add_cons]
  | slots array i dptr next =>
    obtain ⟨harray, hi, hnext⟩ := neat
    have hslots := harray.slots
    have held : (array.addr, .kmalloc) ∈ (Pc.slots array i dptr next).owed :=
      Multiset.mem_add.mpr (.inl (Multiset.mem_cons_self _ _))
    by_cases hmore : (i : Int) < dev.qset
    · have hlt : i < array.slots.length := by omega
      have hfrom := blocksFrom_succ hlt
      simp only [Pc.step, if_pos hmore, if_pos (And.intro held hlt)]
      cases hblock : array.slots[i]?.join with
      | none =>
        refine ⟨_, _, _, rfl, ?_, harray, hlt, hnext⟩
        rw [hblock] at hfrom
        rw [Pc.owed, hfrom]
        rfl
      | some block =>
        have hobject : (block.addr, freedVia dev) = block.object := by
          rw [via, ← harray.blocks i block hblock]
          rfl
        rw [hblock] at hfrom
        have howed : (Pc.slots array i dptr next).owed =
            block.object ::ₘ (Pc.slots array (i + 1) dptr next).owed := by
          simp only [Pc.owed, hfrom, Option.map_some, Option.toList_some, List.singleton_append,
            ← Multiset.cons_coe, Multiset.cons_add]
          rw [Multiset.cons_swap]
        have hheld : (block.addr, freedVia dev) ∈ (Pc.slots array i dptr next).owed := by
          rw [hobject, howed]
          exact Multiset.mem_cons_self _ _
        refine ⟨_, _, _, congrArg some (if_pos hheld), ?_, harray, hlt, hnext⟩
        rw [hobject, howed]
        exact Multiset.erase_cons_head _ _
    · have hend : blocksFrom array i = [] := blocksFrom_all (by omega)
      simp only [Pc.step, if_neg hmore]
      refine ⟨_, _, _, congrArg some (if_pos held), ?_, hnext⟩
      simp only [Pc.owed, hend, Multiset.coe_nil, Multiset.cons_add, zero_add]
      exact Multiset.erase_cons_head _ _
  | freeNode dptr next =>
    have held : (dptr.addr, .kmalloc) ∈ (Pc.freeNode dptr next).owed := Multiset.mem_cons_self _ _
    refine ⟨_, _, _, congrArg some (if_pos held), ?_, neat⟩
    exact Multiset.erase_cons_head _ _
  | clearSize => exact ⟨_, _, _, rfl, rfl, trivial⟩
  | clearData => exact ⟨_, _, _, rfl, rfl, trivial⟩
  | setQset => exact ⟨_, _, _, rfl, rfl, trivial⟩
  | setQuantum => exact ⟨_, _, _, rfl, rfl, trivial⟩

theorem idle_safe (idle : pc.rest = []) : pc.step g dev live ≠ some .faults := by
  cases pc with
  | node dptr =>
    cases idle
    simp [Pc.step]
  | slots => cases idle
  | freeNode => cases idle
  | _ => simp [Pc.step]

theorem idle_goes (h : pc.Goes g dev live dev' live' pc') (idle : pc.rest = [])
    (data : dev.data = []) : dev'.data = [] ∧ live' = live ∧ pc'.rest = [] := by
  cases h with
  | load => exact ⟨data, rfl, data⟩
  | ends => exact ⟨data, rfl, rfl⟩
  | clearSize => exact ⟨data, rfl, rfl⟩
  | clearData => exact ⟨rfl, rfl, rfl⟩
  | setQset => exact ⟨data, rfl, rfl⟩
  | setQuantum => exact ⟨data, rfl, rfl⟩
  | array => cases idle
  | bare => cases idle
  | block => cases idle
  | hole => cases idle
  | freeData => cases idle
  | freeNode => cases idle

/-- Between the load of `dev->data` and the store of `NULL` there. -/
def Pc.Holding : Pc → Prop
  | .node _ | .slots _ _ _ _ | .freeNode _ _ | .clearSize | .clearData => True
  | _ => False

theorem holding_goes (h : pc.Goes g dev live dev' live' pc') (holding : pc.Holding) :
    (pc'.Holding ∧ dev'.data = dev.data ∧ dev'.qset = dev.qset) ∨
      (dev'.data = [] ∧ live' = live ∧ pc = .clearData ∧ pc' = .setQset) := by
  cases h with
  | load => cases holding
  | ends => exact .inl ⟨trivial, rfl, rfl⟩
  | array => exact .inl ⟨trivial, rfl, rfl⟩
  | bare => exact .inl ⟨trivial, rfl, rfl⟩
  | block => exact .inl ⟨trivial, rfl, rfl⟩
  | hole => exact .inl ⟨trivial, rfl, rfl⟩
  | freeData => exact .inl ⟨trivial, rfl, rfl⟩
  | freeNode => exact .inl ⟨trivial, rfl, rfl⟩
  | clearSize => exact .inl ⟨trivial, rfl, rfl⟩
  | clearData => exact .inr ⟨rfl, rfl, rfl, rfl⟩
  | setQset => cases holding
  | setQuantum => cases holding

theorem goes_keeps (h : pc.Goes g dev live dev' live' pc') :
    dev'.order = dev.order ∧ dev'.type = dev.type := by
  cases h <;> exact ⟨rfl, rfl⟩

theorem rest_goes (h : pc.Goes g dev live dev' live' pc') :
    (pc = .entry ∧ pc' = .node dev.data ∧ live' = live) ∨
      (pc ≠ .entry ∧ pc'.rest = pc.rest ∧ live' ≤ live) ∨
      ∃ dptr next, pc.rest = dptr :: next ∧ pc'.rest = next ∧ (dptr.addr, .kmalloc) ∈ live ∧
        live' = live.erase (dptr.addr, .kmalloc) := by
  cases h with
  | load => exact .inl ⟨rfl, rfl, rfl⟩
  | freeNode dptr next held => exact .inr (.inr ⟨dptr, next, rfl, rfl, held, rfl⟩)
  | block => exact .inr (.inl ⟨by simp, rfl, Multiset.erase_le _ _⟩)
  | freeData => exact .inr (.inl ⟨by simp, rfl, Multiset.erase_le _ _⟩)
  | ends => exact .inr (.inl ⟨by simp, rfl, le_rfl⟩)
  | array => exact .inr (.inl ⟨by simp, rfl, le_rfl⟩)
  | bare => exact .inr (.inl ⟨by simp, rfl, le_rfl⟩)
  | hole => exact .inr (.inl ⟨by simp, rfl, le_rfl⟩)
  | clearSize => exact .inr (.inl ⟨by simp, rfl, le_rfl⟩)
  | clearData => exact .inr (.inl ⟨by simp, rfl, le_rfl⟩)
  | setQset => exact .inr (.inl ⟨by simp, rfl, le_rfl⟩)
  | setQuantum => exact .inr (.inl ⟨by simp, rfl, le_rfl⟩)

theorem data_goes (h : pc.Goes g dev live dev' live' pc') :
    pc' ≠ .entry ∧ (dev'.data = dev.data ∨ pc ≠ .entry ∧ dev'.data = []) := by
  cases h with
  | clearData => exact ⟨by simp, .inr ⟨by simp, rfl⟩⟩
  | _ => exact ⟨by simp, .inl rfl⟩

def Pc.stage : Pc → Nat
  | .clearData => 1
  | .setQset => 2
  | .setQuantum => 3
  | .returned => 4
  | _ => 0

structure Assigned (g : Globals) (dev : ScullDev) (stage : Nat) : Prop where
  size : 1 ≤ stage → dev.size = 0
  data : 2 ≤ stage → dev.data = []
  qset : 3 ≤ stage → dev.qset = g.scullQsetN
  quantum : 4 ≤ stage → dev.quantum = g.scullQuantum

theorem assigned_none (g : Globals) (dev : ScullDev) : Assigned g dev 0 := by
  constructor <;> exact fun h => absurd h (by decide)

theorem Assigned.trimmed (h : Assigned g dev 4)
    (allocators : dev.order = dev₀.order ∧ dev.type = dev₀.type) : dev = trimmed g dev₀ := by
  have hdata := h.data (by decide)
  have hsize := h.size (by decide)
  have hqset := h.qset (by decide)
  have hquantum := h.quantum (by decide)
  obtain ⟨horder, htype⟩ := allocators
  cases dev
  simp only at hdata hsize hqset hquantum horder htype
  rw [hdata, hsize, hqset, hquantum, horder, htype]
  rfl

theorem assigned_goes (h : pc.Goes g dev live dev' live' pc') :
    (∀ stage, Assigned g dev stage → Assigned g dev' stage) ∧
      (Assigned g dev pc.stage → Assigned g dev' pc'.stage) := by
  cases h with
  | clearSize =>
    refine ⟨fun stage h => ⟨fun _ => rfl, h.data, h.qset, h.quantum⟩, fun h => ?_⟩
    exact ⟨fun _ => rfl, fun h => absurd h (by decide), fun h => absurd h (by decide),
      fun h => absurd h (by decide)⟩
  | clearData =>
    refine ⟨fun stage h => ⟨h.size, fun _ => rfl, h.qset, h.quantum⟩, fun h => ?_⟩
    exact ⟨fun _ => h.size le_rfl, fun _ => rfl, fun h => absurd h (by decide),
      fun h => absurd h (by decide)⟩
  | setQset =>
    refine ⟨fun stage h => ⟨h.size, h.data, fun _ => rfl, h.quantum⟩, fun h => ?_⟩
    exact ⟨fun _ => h.size (by decide), fun _ => h.data le_rfl, fun _ => rfl,
      fun h => absurd h (by decide)⟩
  | setQuantum =>
    refine ⟨fun stage h => ⟨h.size, h.data, h.qset, fun _ => rfl⟩, fun h => ?_⟩
    exact ⟨fun _ => h.size (by decide), fun _ => h.data (by decide), fun _ => h.qset le_rfl,
      fun _ => rfl⟩
  | load => exact ⟨fun _ => id, fun _ => assigned_none _ _⟩
  | ends => exact ⟨fun _ => id, fun _ => assigned_none _ _⟩
  | array => exact ⟨fun _ => id, fun _ => assigned_none _ _⟩
  | bare => exact ⟨fun _ => id, fun _ => assigned_none _ _⟩
  | block => exact ⟨fun _ => id, fun _ => assigned_none _ _⟩
  | hole => exact ⟨fun _ => id, fun _ => assigned_none _ _⟩
  | freeData => exact ⟨fun _ => id, fun _ => assigned_none _ _⟩
  | freeNode => exact ⟨fun _ => id, fun _ => assigned_none _ _⟩

end Alone

/-! ## While at most one trim has found the list -/

section Worlds
variable {ι : Type} [DecidableEq ι] {g : Globals} {dev₀ : ScullDev} {w w' : World ι} {k : ι}

inductive Phase (dev₀ : ScullDev) (w : World ι) : Prop
  /-- Nobody has begun. -/
  | whole (data : w.dev.data = dev₀.data) (qset : w.dev.qset = dev₀.qset)
      (live : w.live = reachable dev₀.data) (all : ∀ j, w.trimmers j = ⟨.entry, false⟩)
  /-- Trim `i` holds the list, and nobody else has begun. -/
  | walking (i : ι) (nonempty : dev₀.data ≠ []) (data : w.dev.data = dev₀.data)
      (qset : w.dev.qset = dev₀.qset) (live : w.live = (w.trimmers i).pc.owed)
      (neat : (w.trimmers i).pc.Neat dev₀) (holding : (w.trimmers i).pc.Holding)
      (found : (w.trimmers i).found = true) (others : ∀ j, j ≠ i → w.trimmers j = ⟨.entry, false⟩)
  /-- The device is empty, and nobody holds a node. -/
  | cleared (data : w.dev.data = []) (live : w.live = 0) (idle : ∀ j, (w.trimmers j).pc.rest = [])
      (one : ∀ i j, (w.trimmers i).found = true → (w.trimmers j).found = true → i = j)
  | crossed (crossed : w.Crossed)

theorem crossed_goes {dev : ScullDev} {live : Multiset Object} {pc : Pc} (h : w.Crossed)
    (hentry : (w.trimmers k).found = true → (w.trimmers k).pc ≠ .entry) :
    (w.goes k dev live pc).Crossed := by
  have hkept {j : ι} (hj : (w.trimmers j).found = true) :
      ((w.goes k dev live pc).trimmers j).found = true := by
    by_cases hjk : j = k
    · subst hjk
      rw [goes_found (hentry hj)]
      exact hj
    · rw [goes_other hjk]
      exact hj
  obtain ⟨i, j, hne, hi, hj⟩ := h
  exact ⟨i, j, hne, hkept hi, hkept hj⟩

theorem whole_goes {dev : ScullDev} {live : Multiset Object} {pc : Pc}
    (neat : NeatNodes dev₀ dev₀.data) (data : w.dev.data = dev₀.data)
    (qset : w.dev.qset = dev₀.qset) (hlive : w.live = reachable dev₀.data)
    (all : ∀ j, w.trimmers j = ⟨.entry, false⟩)
    (h : Pc.Goes w.globals w.dev w.live .entry dev live pc) : Phase dev₀ (w.goes k dev live pc) := by
  have hentry : (w.trimmers k).pc = .entry := by rw [all k]
  cases h
  by_cases hempty : dev₀.data = []
  · have hfound (j : ι) : ((w.goes k w.dev w.live (.node w.dev.data)).trimmers j).found = false := by
      by_cases hj : j = k
      · rw [hj, goes_found_entry hentry]
        simp [data, hempty]
      · rw [goes_other hj, all j]
    refine .cleared (data.trans hempty) (hlive.trans (by rw [hempty]; rfl)) ?_ ?_
    · intro j
      by_cases hj : j = k
      · rw [hj, goes_pc]
        exact data.trans hempty
      · rw [goes_other hj, all j]
        rfl
    · intro i j hi
      rw [hfound i] at hi
      cases hi
  · refine .walking k hempty data qset ?_ ?_ ?_ ?_ ?_
    · rw [goes_pc]
      exact hlive.trans (by rw [data]; rfl)
    · rw [goes_pc, data]
      exact neat
    · rw [goes_pc]
      trivial
    · rw [goes_found_entry hentry]
      simp [data, hempty]
    · intro j hj
      rw [goes_other hj]
      exact all j

theorem walking_goes {dev : ScullDev} {live : Multiset Object} {pc : Pc}
    (nonempty : dev₀.data ≠ []) (data : w.dev.data = dev₀.data) (qset : w.dev.qset = dev₀.qset)
    (holding : (w.trimmers k).pc.Holding)
    (found : (w.trimmers k).found = true) (others : ∀ j, j ≠ k → w.trimmers j = ⟨.entry, false⟩)
    (h : (w.trimmers k).pc.Goes w.globals w.dev w.live dev live pc) (howed : live = pc.owed)
    (neat : pc.Neat dev₀) : Phase dev₀ (w.goes k dev live pc) := by
  have hentry : (w.trimmers k).pc ≠ .entry := by
    intro hpc
    rw [hpc] at holding
    exact holding
  have hfound : ((w.goes k dev live pc).trimmers k).found = true := by
    rw [goes_found hentry]
    exact found
  have hothers (j : ι) (hj : j ≠ k) : (w.goes k dev live pc).trimmers j = ⟨.entry, false⟩ := by
    rw [goes_other hj]
    exact others j hj
  rcases holding_goes h holding with ⟨hholding, hdata, hqset⟩ | ⟨hdata, hsame, hpc, hpc'⟩
  · refine .walking k nonempty (hdata.trans data) (hqset.trans qset) ?_ ?_ ?_ hfound hothers
    · rw [goes_pc]
      exact howed
    · rw [goes_pc]
      exact neat
    · rw [goes_pc]
      exact hholding
  · refine .cleared hdata ?_ ?_ ?_
    · rw [hpc'] at howed
      exact howed
    · intro j
      by_cases hj : j = k
      · rw [hj, goes_pc, hpc']
        rfl
      · rw [hothers j hj]
        rfl
    · have hone (j : ι) (hj : ((w.goes k dev live pc).trimmers j).found = true) : j = k := by
        by_contra hne
        rw [hothers j hne] at hj
        cases hj
      intro i j hi hj
      rw [hone i hi, hone j hj]

theorem cleared_goes {dev : ScullDev} {live : Multiset Object} {pc : Pc}
    (data : w.dev.data = []) (hlive : w.live = 0) (idle : ∀ j, (w.trimmers j).pc.rest = [])
    (one : ∀ i j, (w.trimmers i).found = true → (w.trimmers j).found = true → i = j)
    (h : (w.trimmers k).pc.Goes w.globals w.dev w.live dev live pc) :
    Phase dev₀ (w.goes k dev live pc) := by
  obtain ⟨hdata, hsame, hrest⟩ := idle_goes h (idle k) data
  have hfound (j : ι) (hj : ((w.goes k dev live pc).trimmers j).found = true) :
      (w.trimmers j).found = true := by
    by_cases hjk : j = k
    · subst hjk
      by_cases hentry : (w.trimmers j).pc = .entry
      · rw [goes_found_entry hentry, data] at hj
        simp at hj
      · rwa [goes_found hentry] at hj
    · rwa [goes_other hjk] at hj
  refine .cleared hdata (hsame.trans hlive) ?_ ?_
  · intro j
    by_cases hj : j = k
    · rw [hj, goes_pc]
      exact hrest
    · rw [goes_other hj]
      exact idle j
  · intro i j hi hj
    exact one i j (hfound i hi) (hfound j hj)

theorem phase_moves (neat : NeatNodes dev₀ dev₀.data)
    (via : freedVia w.dev = freedVia dev₀) (h : Phase dev₀ w)
    (entries : ∀ j, (w.trimmers j).found = true → (w.trimmers j).pc ≠ .entry)
    (hmove : Moves w k w') : Phase dev₀ w' ∧ (w'.faulted = true → w'.Crossed) := by
  obtain ⟨hfaulted, hcases⟩ := moves_cases hmove
  cases h with
  | crossed hcrossed =>
    rcases hcases with ⟨-, rfl⟩ | ⟨dev, live, pc, -, rfl⟩
    · exact ⟨.crossed hcrossed, fun _ => hcrossed⟩
    · have hkept := @crossed_goes _ _ w k dev live pc hcrossed (entries k)
      exact ⟨.crossed hkept, fun _ => hkept⟩
  | whole data qset hlive all =>
    have hpc : (w.trimmers k).pc = .entry := by rw [all k]
    rw [hpc] at hcases
    rcases hcases with ⟨hfault, -⟩ | ⟨dev, live, pc, hstep, rfl⟩
    · cases hfault
    · refine ⟨whole_goes neat data qset hlive all (step_goes hstep), fun hwrong => ?_⟩
      cases hfaulted.symm.trans hwrong
  | walking i nonempty data qset hlive hneat holding found others =>
    by_cases hk : k = i
    · subst hk
      have hentry : (w.trimmers k).pc ≠ .entry := entries k found
      have hreturned : (w.trimmers k).pc ≠ .returned := by
        intro hpc
        rw [hpc] at holding
        exact holding
      obtain ⟨dev, live, pc, hstep, howed, hneat'⟩ :=
        @alone_goes w.globals _ _ _ _ hneat qset via hlive hentry hreturned
      rw [hstep] at hcases
      rcases hcases with ⟨hfault, -⟩ | ⟨_, _, _, hsame, rfl⟩
      · cases hfault
      · cases hsame
        refine ⟨walking_goes nonempty data qset holding found others (step_goes hstep) howed
          hneat', fun hwrong => ?_⟩
        cases hfaulted.symm.trans hwrong
    · have hpc : (w.trimmers k).pc = .entry := by rw [others k hk]
      rw [hpc] at hcases
      rcases hcases with ⟨hfault, -⟩ | ⟨dev, live, pc, hstep, rfl⟩
      · cases hfault
      · have hcrossed : (w.goes k dev live pc).Crossed := by
          refine ⟨i, k, Ne.symm hk, ?_, ?_⟩
          · rw [goes_other (Ne.symm hk)]
            exact found
          · rw [goes_found_entry hpc, data]
            simp [nonempty]
        exact ⟨.crossed hcrossed, fun _ => hcrossed⟩
  | cleared data hlive idle one =>
    rcases hcases with ⟨hfault, -⟩ | ⟨dev, live, pc, hstep, rfl⟩
    · exact absurd hfault (idle_safe (idle k))
    · refine ⟨cleared_goes data hlive idle one (step_goes hstep), fun hwrong => ?_⟩
      cases hfaulted.symm.trans hwrong

/-! ## When two have found it -/

def Past (dev₀ : ScullDev) (w : World ι) (i : ι) : Prop :=
  (w.trimmers i).found = true ∧ (w.trimmers i).pc.rest ≠ dev₀.data

/-- Whoever has found the list walks along it, and the first node can be freed once. -/
structure Heads (dev₀ : ScullDev) (w : World ι) : Prop where
  live : w.live ≤ reachable dev₀.data
  data : w.dev.data = dev₀.data ∨ w.dev.data = []
  entries : ∀ i, (w.trimmers i).found = true → (w.trimmers i).pc ≠ .entry ∧ dev₀.data ≠ []
  suffix : ∀ i, (w.trimmers i).pc.rest <:+ dev₀.data
  lost : ∀ i, (w.trimmers i).found = false → (w.trimmers i).pc.rest = []
  gone : ∀ i, Past dev₀ w i → ∀ dptr next, dev₀.data = dptr :: next → (dptr.addr, .kmalloc) ∉ w.live
  one : ∀ i j, Past dev₀ w i → Past dev₀ w j → i = j

omit [DecidableEq ι] in
theorem heads_init (g : Globals) (dev₀ : ScullDev) : Heads dev₀ (World.init (ι := ι) g dev₀) where
  live := le_rfl
  data := .inl rfl
  entries i h := by cases h
  suffix i := List.nil_suffix
  lost i _ := rfl
  gone i h := by cases h.1
  one i j h := by cases h.1

theorem heads_load (h : Heads dev₀ w) {dev : ScullDev} (hentry : (w.trimmers k).pc = .entry)
    (hdev : dev.data = w.dev.data) :
    Heads dev₀ (w.goes k dev w.live (.node w.dev.data)) := by
  have hpast (j : ι) (hj : Past dev₀ (w.goes k dev w.live (.node w.dev.data)) j) :
      Past dev₀ w j := by
    by_cases hjk : j = k
    · subst hjk
      obtain ⟨hfound, hrest⟩ := hj
      rw [goes_found_entry hentry, decide_eq_true_iff] at hfound
      rw [goes_pc] at hrest
      exact absurd (h.data.resolve_right hfound) hrest
    · unfold Past at hj
      rwa [goes_other hjk] at hj
  refine ⟨h.live, ?_, ?_, ?_, ?_, fun i hi => h.gone i (hpast i hi),
    fun i j hi hj => h.one i j (hpast i hi) (hpast j hj)⟩
  · exact hdev.symm ▸ h.data
  · intro i hi
    by_cases hik : i = k
    · subst hik
      rw [goes_found_entry hentry, decide_eq_true_iff] at hi
      rw [goes_pc, ← h.data.resolve_right hi]
      exact ⟨by simp, hi⟩
    · rw [goes_other hik] at hi ⊢
      exact h.entries i hi
  · intro i
    by_cases hik : i = k
    · rw [hik, goes_pc]
      rcases h.data with hdata | hdata
      · exact hdata ▸ List.suffix_refl _
      · exact hdata ▸ List.nil_suffix
    · rw [goes_other hik]
      exact h.suffix i
  · intro i hi
    by_cases hik : i = k
    · subst hik
      rw [goes_found_entry hentry] at hi
      rw [decide_eq_false_iff_not, not_not] at hi
      rw [goes_pc, hi]
      rfl
    · rw [goes_other hik] at hi ⊢
      exact h.lost i hi

theorem heads_on (h : Heads dev₀ w) {dev : ScullDev} {live : Multiset Object} {pc : Pc}
    (hentry : (w.trimmers k).pc ≠ .entry) (hpc : pc ≠ .entry) (hlive : live ≤ w.live)
    (hdev : dev.data = w.dev.data ∨ dev.data = []) (hrest : pc.rest <:+ (w.trimmers k).pc.rest)
    (hpast : Past dev₀ (w.goes k dev live pc) k → Past dev₀ w k ∨
      (∀ j, ¬ Past dev₀ w j) ∧
        ∀ dptr next, dev₀.data = dptr :: next → (dptr.addr, .kmalloc) ∉ live) :
    Heads dev₀ (w.goes k dev live pc) := by
  have hother (j : ι) (hjk : j ≠ k) (hj : Past dev₀ (w.goes k dev live pc) j) : Past dev₀ w j := by
    unfold Past at hj
    rwa [goes_other hjk] at hj
  have hgone (dptr : ScullQset) (hnot : (dptr.addr, Allocator.kmalloc) ∉ w.live) :
      (dptr.addr, Allocator.kmalloc) ∉ live :=
    fun hmem => hnot (Multiset.mem_of_le hlive hmem)
  constructor
  · exact hlive.trans h.live
  · rcases hdev with hdev | hdev
    · exact hdev.symm ▸ h.data
    · exact .inr hdev
  · intro i hi
    by_cases hik : i = k
    · subst hik
      rw [goes_found hentry] at hi
      rw [goes_pc]
      exact ⟨hpc, (h.entries i hi).2⟩
    · rw [goes_other hik] at hi ⊢
      exact h.entries i hi
  · intro i
    by_cases hik : i = k
    · rw [hik, goes_pc]
      exact hrest.trans (h.suffix k)
    · rw [goes_other hik]
      exact h.suffix i
  · intro i hi
    by_cases hik : i = k
    · subst hik
      rw [goes_found hentry] at hi
      rw [goes_pc]
      have hnone := h.lost i hi
      rw [hnone] at hrest
      exact List.suffix_nil.mp hrest
    · rw [goes_other hik] at hi ⊢
      exact h.lost i hi
  · intro i hi dptr next hdata
    by_cases hik : i = k
    · subst hik
      rcases hpast hi with hbefore | ⟨-, hfirst⟩
      · exact hgone dptr (h.gone i hbefore dptr next hdata)
      · exact hfirst dptr next hdata
    · exact hgone dptr (h.gone i (hother i hik hi) dptr next hdata)
  · intro i j hi hj
    have hone (l : ι) (hlk : l ≠ k) (hl : Past dev₀ (w.goes k dev live pc) l)
        (hk : Past dev₀ (w.goes k dev live pc) k) : False := by
      rcases hpast hk with hbefore | ⟨hnobody, -⟩
      · exact hlk (h.one l k (hother l hlk hl) hbefore)
      · exact hnobody l (hother l hlk hl)
    by_cases hik : i = k
    · by_cases hjk : j = k
      · rw [hik, hjk]
      · exact (hone j hjk hj (hik ▸ hi)).elim
    · by_cases hjk : j = k
      · exact (hone i hik hi (hjk ▸ hj)).elim
      · exact h.one i j (hother i hik hi) (hother j hjk hj)

theorem heads_goes (h : Heads dev₀ w) (once : (reachable dev₀.data).Nodup) {dev : ScullDev}
    {live : Multiset Object} {pc : Pc}
    (hgoes : (w.trimmers k).pc.Goes w.globals w.dev w.live dev live pc) :
    Heads dev₀ (w.goes k dev live pc) := by
  obtain ⟨hpc, hdata⟩ := data_goes hgoes
  have hdev : dev.data = w.dev.data ∨ dev.data = [] := hdata.imp id And.right
  rcases rest_goes hgoes with ⟨hentry, rfl, rfl⟩ | ⟨hentry, hrest, hlive⟩ |
      ⟨dptr, next, hrest, hnext, held, rfl⟩
  · exact heads_load h hentry (hdata.resolve_right fun hnot => hnot.1 hentry)
  · refine heads_on h hentry hpc hlive hdev (hrest ▸ List.suffix_refl _) ?_
    rintro ⟨hfound, hleft⟩
    rw [goes_found hentry] at hfound
    rw [goes_pc, hrest] at hleft
    exact .inl ⟨hfound, hleft⟩
  · have hentry : (w.trimmers k).pc ≠ .entry := by
      intro hentry
      rw [hentry] at hrest
      cases hrest
    refine heads_on h hentry hpc (Multiset.erase_le _ _) hdev ?_ ?_
    · rw [hrest, hnext]
      exact List.suffix_cons dptr next
    · rintro ⟨hfound, -⟩
      rw [goes_found hentry] at hfound
      by_cases hfirst : (w.trimmers k).pc.rest = dev₀.data
      · right
        have hhead : dev₀.data = dptr :: next := hfirst.symm.trans hrest
        refine ⟨fun j hj => h.gone j hj dptr next hhead held, ?_⟩
        intro first others hdata'
        cases hhead.symm.trans hdata'
        exact (Multiset.nodup_of_le h.live once).notMem_erase
      · exact .inl ⟨hfound, hfirst⟩

/-! ## Whole runs -/

structure Sound (g : Globals) (dev₀ : ScullDev) (w : World ι) : Prop where
  globals : w.globals = g
  allocators : w.dev.order = dev₀.order ∧ w.dev.type = dev₀.type
  phase : Phase dev₀ w
  heads : Heads dev₀ w
  assigned : ∀ i, Assigned g w.dev (w.trimmers i).pc.stage
  fault : w.faulted = true → w.Crossed

omit [DecidableEq ι] in
theorem sound_init (g : Globals) (dev₀ : ScullDev) :
    Sound g dev₀ (World.init (ι := ι) g dev₀) where
  globals := rfl
  allocators := ⟨rfl, rfl⟩
  phase := .whole rfl rfl rfl fun _ => rfl
  heads := heads_init g dev₀
  assigned _ := assigned_none g dev₀
  fault h := by cases h

theorem sound_moves (neat : NeatNodes dev₀ dev₀.data) (once : (reachable dev₀.data).Nodup)
    (h : Sound g dev₀ w) (hmove : Moves w k w') : Sound g dev₀ w' := by
  have hvia : freedVia w.dev = freedVia dev₀ := by
    unfold freedVia
    rw [h.allocators.1, h.allocators.2]
  obtain ⟨hphase, hfault⟩ :=
    phase_moves neat hvia h.phase (fun j hj => (h.heads.entries j hj).1) hmove
  obtain ⟨-, ⟨-, rfl⟩ | ⟨dev, live, pc, hstep, rfl⟩⟩ := moves_cases hmove
  · obtain ⟨hlive, hdata, hentries, hsuffix, hlost, hgone, hone⟩ := h.heads
    exact ⟨h.globals, h.allocators, hphase, ⟨hlive, hdata, hentries, hsuffix, hlost, hgone, hone⟩,
      h.assigned, hfault⟩
  · have hgoes := step_goes hstep
    have hkeeps := goes_keeps hgoes
    rw [h.globals] at hgoes
    obtain ⟨hstays, hadds⟩ := assigned_goes hgoes
    refine ⟨h.globals, ⟨hkeeps.1.trans h.allocators.1, hkeeps.2.trans h.allocators.2⟩, hphase,
      heads_goes h.heads once (step_goes hstep), fun i => ?_, hfault⟩
    by_cases hi : i = k
    · rw [hi, goes_pc]
      exact hadds (h.assigned k)
    · rw [goes_other hi]
      exact hstays _ (h.assigned i)

/-- The statements a node takes at most. -/
def nodeWork (dptr : ScullQset) : Nat :=
  match dptr.data with
  | some array => array.slots.length + 3
  | none => 2

def walkWork : List ScullQset → Nat
  | [] => 0
  | dptr :: next => nodeWork dptr + walkWork next

/-- The statements that are left at most, when `all` is what `dev->data` may hold. -/
def Pc.effort (all : List ScullQset) : Pc → Nat
  | .entry => walkWork all + 6
  | .node dptr => walkWork dptr + 5
  | .slots array i _ next => array.slots.length - i + walkWork next + 7
  | .freeNode _ next => walkWork next + 6
  | .clearSize => 4
  | .clearData => 3
  | .setQset => 2
  | .setQuantum => 1
  | .returned => 0

theorem effort_falls {dev dev' : ScullDev} {live live' : Multiset Object} {pc pc' : Pc}
    {all : List ScullQset} (h : pc.Goes g dev live dev' live' pc')
    (data : dev.data = all ∨ dev.data = []) : pc'.effort all < pc.effort all := by
  cases h with
  | load =>
    rcases data with hdata | hdata <;> simp only [Pc.effort, hdata, walkWork] <;> omega
  | array dptr next array hdata =>
    simp only [Pc.effort, walkWork, nodeWork, hdata]
    omega
  | bare dptr next hdata =>
    simp only [Pc.effort, walkWork, nodeWork, hdata]
    omega
  | _ =>
    simp only [Pc.effort, walkWork]
    omega

theorem step_none {dev : ScullDev} {live : Multiset Object} {pc : Pc}
    (h : pc.step g dev live = none) : pc = .returned := by
  cases pc with
  | returned => rfl
  | node dptr => cases dptr <;> cases h
  | slots array i dptr next =>
    simp only [Pc.step] at h
    split at h
    · split at h
      · split at h <;> cases h
      · cases h
    · cases h
  | _ => cases h

structure Rested (g : Globals) (dev₀ : ScullDev) (w : World ι) : Prop where
  faulted : w.faulted = true ↔ w.Crossed
  trimmed : ¬ w.Crossed → (∀ i, (w.trimmers i).pc = .returned) ∧ w.live = 0 ∧ w.dev = trimmed g dev₀

theorem sound_rested [Nonempty ι] (h : Sound g dev₀ w) (rest : ∀ i w', ¬ Moves w i w') :
    Rested g dev₀ w := by
  have hreturned (hfaulted : w.faulted = false) (i : ι) : (w.trimmers i).pc = .returned := by
    have hnone : w.step i = none := Option.eq_none_iff_forall_ne_some.mpr (rest i)
    simp only [World.step, hfaulted, Bool.false_eq_true, if_false, Option.map_eq_none_iff] at hnone
    exact step_none hnone
  constructor
  · refine ⟨h.fault, fun hcrossed => ?_⟩
    by_contra hfaulted
    have hreturned := hreturned (by simpa using hfaulted)
    obtain ⟨i, j, hne, hi, hj⟩ := hcrossed
    have hpast (l : ι) (hl : (w.trimmers l).found = true) : Past dev₀ w l := by
      refine ⟨hl, ?_⟩
      rw [hreturned l]
      exact fun hnil => (h.heads.entries l hl).2 hnil.symm
    exact hne (h.heads.one i j (hpast i hi) (hpast j hj))
  · intro hcrossed
    have hreturned := hreturned (by simpa using fun hfaulted => hcrossed (h.fault hfaulted))
    obtain ⟨i⟩ := ‹Nonempty ι›
    have hassigned := h.assigned i
    rw [hreturned i] at hassigned
    have hlive : w.live = 0 := by
      cases h.phase with
      | whole _ _ _ all =>
        have hentry := hreturned i
        rw [all i] at hentry
        cases hentry
      | walking j _ _ _ _ _ holding =>
        rw [hreturned j] at holding
        exact holding.elim
      | cleared _ hlive => exact hlive
      | crossed h => exact absurd h hcrossed
    exact ⟨hreturned, hlive, hassigned.trimmed h.allocators⟩

def World.left [Fintype ι] (all : List ScullQset) (w : World ι) : Nat :=
  ∑ i, (w.trimmers i).pc.effort all + if w.faulted then 0 else 1

theorem left_falls [Fintype ι] (h : Sound g dev₀ w) (hmove : Moves w k w') :
    w'.left dev₀.data < w.left dev₀.data := by
  obtain ⟨hfaulted, ⟨-, rfl⟩ | ⟨dev, live, pc, hstep, rfl⟩⟩ := moves_cases hmove
  · simp [World.left, hfaulted]
  · have hless := effort_falls (step_goes hstep) h.heads.data
    apply Nat.add_lt_add_of_lt_of_le
    · apply Finset.sum_lt_sum
      · intro j _
        by_cases hj : j = k
        · rw [hj, goes_pc]
          exact Nat.le_of_lt hless
        · rw [goes_other hj]
      · refine ⟨k, Finset.mem_univ k, ?_⟩
        rw [goes_pc]
        exact hless
    · exact le_rfl

theorem trims_settle [Fintype ι] [Nonempty ι] (g : Globals) (dev : ScullDev)
    (tidy : Tidy dev dev.data) (once : (reachable dev.data).Nodup) {order : List ι}
    (run : Run Moves (.init g dev) order w) :
    (w.faulted = true → w.Crossed) ∧
      order.length ≤ Fintype.card ι * (walkWork dev.data + 6) + 1 ∧
      ((∀ i w', ¬ Moves w i w') → Rested g dev w) := by
  have hneat := tidy_neat tidy
  have hinit := sound_init (ι := ι) g dev
  have hkept (w : World ι) (k : ι) (w' : World ι) (h : Sound g dev w) (hmove : Moves w k w') :
      Sound g dev w' := sound_moves hneat once h hmove
  have hsound : Sound g dev w :=
    run.invariant (fun _ => Sound g dev) hinit fun _ w k w' _ => hkept w k w'
  have hlength := run.length_le hinit hkept fun w k w' h hmove => left_falls h hmove
  have hmost : (World.init (ι := ι) g dev).left dev.data =
      Fintype.card ι * (walkWork dev.data + 6) + 1 := by
    simp [World.left, World.init, Pc.effort]
  exact ⟨hsound.fault, by omega, sound_rested hsound⟩

/-- Any number of opens for writing of a device that calls have filled under sound settings,
with allocators that give no address twice: in whatever order their statements come, all
come to an end, and memory is used that is not allocated if and only if two of them found
the list. Otherwise each object is freed once, and the device is as after one trim. -/
theorem trims_collide [Fintype ι] [Nonempty ι] {s : Session} {dev : ScullDev}
    {labels : List ((Call × Reply) × List Event)} (empty : s.Empty)
    (reached : Run (While (fun s done => SettlesSound s done.1) Traces) s labels ⟨g, dev⟩)
    (fresh : Fresh Prod.fst 0 (entries labels)) {order : List ι}
    (run : Run Moves (.init g dev) order w) :
    (w.faulted = true → w.Crossed) ∧
      order.length ≤ Fintype.card ι * (walkWork dev.data + 6) + 1 ∧
      ((∀ i w', ¬ Moves w i w') → Rested g dev w) := by
  obtain ⟨hlive, horderly⟩ := run_settles empty reached
  have hdistinct : ((reachable dev.data).map Prod.fst).Nodup := settle_nodup (by simp) fresh hlive
  exact trims_settle g dev horderly.tidy (Multiset.Nodup.of_map _ hdistinct) run

end Worlds

/-- Two trims of a device with one byte: both load `dev->data`, one goes on to its
`kfree(dptr)`, and the other one loads `dptr->next`. -/
theorem trims_collide_twice : ∃ w : World Bool,
    Run Moves (.init small.globals (holding 7 1).dev)
      [false, true, false, false, false, false, false, true] w ∧
    w.faulted = true ∧ w.Crossed := by
  have hpossible : (([false, true, false, false, false, false, false, true].foldlM World.step
      (World.init small.globals (holding 7 1).dev)).any fun w => w.faulted) = true := by
    decide +kernel
  obtain ⟨w, hfaulted, run⟩ := Run.of_any hpossible
  exact ⟨w, run, hfaulted,
    (trims_collide ⟨rfl, by decide, by decide⟩ stored_again_run (by decide +kernel) run).1 hfaulted⟩

end MyDrivers.Store.Overlap
