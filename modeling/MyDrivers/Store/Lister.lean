import Mathlib.Data.List.TakeWhile
import MyDrivers.Store.Proc

/-! A reader in `/proc` that lists the devices one after the other, while others use them.
It loads the pointer to the items of a device before it waits for its semaphore, so that
the device may have lost its items when the walk over them begins. A trim, which does not
take the semaphore, begins and ends; that it overlaps no other use of the items is a
condition on the runs (`Store.Overlap` has trims that do overlap). -/
namespace MyDrivers.Store
open Lib Lib.Format Lib.Machine

def addrs (items : List ScullQset) : List Addr := items.map ScullQset.addr

def headOf (items : List ScullQset) : Option Addr := (addrs items).head?

/-- The items of the device that a walk from a pointer meets: none from `NULL`. From where
none of them lies, the walk goes astray. -/
def walk (items : List ScullQset) : Option Addr → Option (List ScullQset)
  | none => some []
  | some qs =>
      match items.dropWhile fun item => item.addr ≠ qs with
      | [] => none
      | item :: rest => some (item :: rest)

theorem headOf_eq_none {items : List ScullQset} : headOf items = none ↔ items = [] := by
  simp [headOf, addrs]

theorem walk_head {items : List ScullQset} {qs : Addr} (h : headOf items = some qs) :
    walk items (some qs) = some items := by
  cases items with
  | nil => cases h
  | cons item rest =>
    have haddr : item.addr = qs := Option.some.inj h
    simp [walk, haddr]

theorem walk_astray {items : List ScullQset} {qs : Addr} (h : qs ∉ addrs items) :
    walk items (some qs) = none := by
  have hnone : (items.dropWhile fun item => item.addr ≠ qs) = [] := by
    apply List.dropWhile_eq_nil_iff.mpr
    intro item hitem
    apply decide_eq_true
    rintro rfl
    exact h (List.mem_map_of_mem hitem)
  simp only [walk, hnone]

/-! ## What a call does to the items -/

def Later (supply rest : Supply) : Prop :=
  ∀ qs n, rest n = some qs → ∃ m, supply m = some qs

structure Items (supply : Supply) (before after : List ScullQset) : Prop where
  head : before ≠ [] → headOf after = headOf before
  drawn : ∀ qs ∈ addrs after, qs ∈ addrs before ∨ ∃ n, supply n = some qs

section Items
variable {supply rest : Supply} {first second third : List ScullQset}

theorem Later.refl (supply : Supply) : Later supply supply := fun _ n h => ⟨n, h⟩

theorem Later.drop (supply : Supply) (k : Nat) : Later supply (supply.drop k) :=
  fun _ n h => ⟨n + k, h⟩

theorem Later.trans {last : Supply} (h : Later supply rest) (h' : Later rest last) :
    Later supply last := by
  intro qs n hn
  obtain ⟨m, hm⟩ := h' qs n hn
  exact h qs m hm

theorem Items.same (h : addrs second = addrs first) : Items supply first second := by
  constructor
  · intro _
    unfold headOf
    rw [h]
  · intro qs hqs
    exact .inl (h ▸ hqs)

theorem Items.trans (h : Items supply first second) (hlater : Later supply rest)
    (h' : Items rest second third) : Items supply first third := by
  constructor
  · intro hne
    have hhead := h.head hne
    have hsecond : second ≠ [] := by
      rw [Ne, ← headOf_eq_none, hhead, headOf_eq_none]
      exact hne
    rw [h'.head hsecond, hhead]
  · intro qs hqs
    rcases h'.drawn qs hqs with hold | ⟨n, hn⟩
    · exact h.drawn qs hold
    · exact .inr (hlater qs n hn)

theorem alloc?_later (supply : Supply) (via : Allocator) (size : Nat) :
    (Event.alloc? supply via size).Returns fun r =>
      r.2 = supply.drop 1 ∧ ∀ qs, r.1 = some qs → supply 0 = some qs := by
  unfold Event.alloc? Event.grant?
  split
  · exact .pure ⟨rfl, by simp⟩
  · split
    · exact .pure ⟨rfl, by simp⟩
    · next addr haddr =>
      refine .skip fun _ => .pure ⟨rfl, ?_⟩
      intro qs hqs
      rw [haddr, ← hqs]

theorem appendNode_items (head : List ScullQset) (prev : Option Nat) (supply : Supply) :
    (appendNode head prev supply).Returns fun found =>
      Items supply head found.head ∧ Later supply found.supply := by
  refine .bind _ (alloc?_later supply .kmalloc sizeofQset) ?_
  rintro ⟨qs, rest⟩ ⟨hrest, hfirst⟩
  dsimp only at hrest hfirst
  subst hrest
  cases qs with
  | none => exact .pure ⟨.same rfl, .drop supply 1⟩
  | some addr =>
    refine .skip fun _ => .pure ?_
    refine ⟨⟨?_, ?_⟩, .drop supply 1⟩
    · intro hne
      obtain ⟨item, others, rfl⟩ := List.exists_cons_of_ne_nil hne
      simp [headOf, addrs]
    · intro qs hqs
      simp only [addrs, List.map_append, List.mem_append, List.map_cons, List.map_nil,
        List.mem_singleton] at hqs
      rcases hqs with hqs | rfl
      · left
        rw [List.map_take] at hqs
        exact List.mem_of_mem_take hqs
      · exact .inr ⟨0, hfirst qs rfl⟩

theorem followLoop_items (rounds : Nat) (head : List ScullQset) (prev qs : Option Nat)
    (supply : Supply) : (followLoop head prev qs supply rounds).Returns fun found =>
      Items supply head found.head ∧ Later supply found.supply := by
  induction rounds generalizing head prev qs supply with
  | zero => exact .pure ⟨.same rfl, .refl supply⟩
  | succ rounds ih =>
    unfold followLoop
    cases qs with
    | some node =>
      simp only [pure_bind]
      exact ih _ _ _ _
    | none =>
      refine .bind _ (appendNode_items head prev supply) ?_
      rintro ⟨node, longer, rest⟩ ⟨hitems, hlater⟩
      cases node with
      | none =>
        refine .pure ?_
        exact ⟨hitems, hlater⟩
      | some node =>
        refine (ih longer (some node) (next longer node) rest).mono ?_
        rintro final ⟨hmore, hlast⟩
        exact ⟨hitems.trans hlater hmore, hlater.trans hlast⟩

theorem scullFollow_items (head : List ScullQset) (item : Int) (supply : Supply) :
    (scullFollow head item supply).Returns fun found =>
      Items supply head found.head ∧ Later supply found.supply := by
  cases head with
  | cons first others => exact followLoop_items _ _ _ _ _
  | nil =>
    refine .bind _ (alloc?_later supply .kmalloc sizeofQset) ?_
    rintro ⟨qs, rest⟩ ⟨hrest, hfirst⟩
    dsimp only at hrest hfirst
    subst hrest
    cases qs with
    | none => exact .pure ⟨.same rfl, .drop supply 1⟩
    | some addr =>
      refine (followLoop_items _ _ _ _ _).mono ?_
      rintro found ⟨hitems, hlater⟩
      have hone : Items supply [] [⟨addr, none⟩] := by
        refine ⟨fun h => absurd rfl h, ?_⟩
        intro qs hqs
        rw [List.mem_singleton.mp hqs]
        exact .inr ⟨0, hfirst addr rfl⟩
      exact ⟨hone.trans (.drop supply 1) hitems, (Later.drop supply 1).trans hlater⟩

theorem addrs_setSlots (head : List ScullQset) (node : Nat) (array : SlotArray) :
    addrs (setSlots head node array) = addrs head := by
  unfold addrs setSlots
  apply List.ext_getElem?
  intro i
  rw [List.getElem?_map, List.getElem?_map, List.getElem?_modify]
  cases head[i]? with
  | none => rfl
  | some item => by_cases hi : node = i <;> simp [hi]

theorem ensureSlots_addrs (qset : Int) (head : List ScullQset) (node : Nat) (supply : Supply) :
    (ensureSlots qset head node supply).Returns fun r => addrs r.2.1 = addrs head := by
  unfold ensureSlots
  split
  · exact .pure rfl
  · refine .skip ?_
    rintro ⟨addr, rest⟩
    cases addr with
    | none => exact .pure rfl
    | some addr => exact .pure (addrs_setSlots _ _ _)

theorem ensureBlock_addrs (g : Globals) (dev : ScullDev) (quantum : Int) (head : List ScullQset)
    (node : Nat) (array : SlotArray) (sPos : Int) (supply : Supply) (junk : Nat → Byte) :
    (ensureBlock g dev quantum head node array sPos supply junk).Returns fun r =>
      addrs r.2 = addrs head := by
  unfold ensureBlock
  split
  · exact .pure rfl
  · refine .skip ?_
    rintro ⟨block, rest⟩
    cases block with
    | none => exact .pure rfl
    | some block => exact .skip fun _ => .pure (addrs_setSlots _ _ _)

theorem copyIn_addrs (dev : ScullDev) (head : List ScullQset) (node : Nat) (array : SlotArray)
    (addr : Address) (block : Block) (buff : List Byte) (pos : Int) (accessible : Nat) :
    (copyIn dev head node array addr block buff pos accessible).Returns fun t =>
      addrs t.dev.data = addrs head := by
  rw [copyIn_eq]
  refine .skip fun _ => .pure ?_
  unfold copied
  dsimp only
  split
  · exact addrs_setSlots _ _ _
  · exact addrs_setSlots _ _ _

theorem scullWrite_items (g : Globals) (dev : ScullDev) (buff : List Byte) (pos : Int) (env : Env) :
    (scullWrite g dev buff pos env).Returns fun t => Items env.supply dev.data t.dev.data := by
  unfold scullWrite scullWriteLocked
  split
  · exact .pure (.same rfl)
  · refine .skip fun addr => .bind _ (scullFollow_items dev.data addr.item env.supply) ?_
    rintro dptr ⟨hitems, -⟩
    -- Behind the walk only slots and blocks change.
    have hrest {after : List ScullQset} (h : addrs after = addrs dptr.head) :
        Items env.supply dev.data after := hitems.trans (.refl _) (.same h)
    cases dptr.node with
    | none => exact .pure hitems
    | some node =>
      refine .bind _ (ensureSlots_addrs _ dptr.head node dptr.supply) ?_
      rintro ⟨array, head, supply⟩ hslots
      cases array with
      | none => exact .pure (hrest hslots)
      | some array =>
        refine .skip fun _ => .bind _ (ensureBlock_addrs g dev _ head node array _ supply _) ?_
        rintro ⟨block, after⟩ hblock
        cases block with
        | none => exact .pure (hrest (hblock.trans hslots))
        | some block =>
          refine (copyIn_addrs dev after node array addr block buff pos _).mono ?_
          intro t ht
          exact hrest (ht.trans (hblock.trans hslots))

theorem scullRead_items (dev : ScullDev) (count : Nat) (pos : Int) (env : Env) :
    (scullRead dev count pos env).Returns fun t => Items env.supply dev.data t.dev.data := by
  unfold scullRead scullReadLocked
  split
  · exact .pure (.same rfl)
  · split
    · exact .pure (.same rfl)
    · refine .skip fun addr => .bind _ (scullFollow_items dev.data addr.item env.supply) ?_
      rintro dptr ⟨hitems, -⟩
      split
      · exact .pure hitems
      · refine .skip fun _ => ?_
        split
        · exact .pure hitems
        · refine .skip fun _ => ?_
          split
          · exact .pure hitems
          · exact .pure hitems

end Items

def Call.supply : Call → Supply
  | .scullRead _ _ env => env.supply
  | .scullWrite _ _ env => env.supply
  | .scullOpen _ => fun _ => none
  | .scullIoctl _ => fun _ => none

def Call.Locks : Call → Prop
  | .scullRead _ _ _ => True
  | .scullWrite _ _ _ => True
  | _ => False

theorem step_items {s t : Session} {done : Call × Reply} (h : Step s done t) :
    done.1.Trims ∧ t.dev.data = [] ∨
      ¬ done.1.Trims ∧ Items done.1.supply s.dev.data t.dev.data := by
  cases step_cases h with
  | trim fFlags reply flags => exact .inl ⟨flags, rfl⟩
  | enter fFlags reply flags => exact .inr ⟨flags, .same rfl⟩
  | read count pos env t returned => exact .inr ⟨id, scullRead_items _ _ _ _ t returned⟩
  | write buff pos env t returned => exact .inr ⟨id, scullWrite_items _ _ _ _ _ t returned⟩
  | ioctl call reply => exact .inr ⟨id, .same rfl⟩

/-! ## The reader among the others -/

namespace Lister

/-- Where the reader stands. `before` is the device when its pointer was loaded, and `lost`
tells whether it has been trimmed of items since. -/
inductive Phase where
  | idle
  /-- A device, or the end. -/
  | on (dev : Option Nat)
  /-- Before `down_interruptible`. -/
  | loaded (dev : Nat) (before : ScullDev) (lost : Bool)
  | locked (dev : Nat) (before : ScullDev) (lost : Bool)
  /-- From the header and the walk, which has met these items, to `up`. -/
  | walked (dev : Nat) (before printed : ScullDev) (items : List ScullQset)
  deriving DecidableEq

/-- `log` records each device whose text is in `out`: when its pointer was loaded, and
when it was printed. -/
structure Reader where
  index : Nat
  phase : Phase
  out : List Char
  log : List (ScullDev × ScullDev)
  strayed : Bool

def Reader.init : Reader := ⟨0, .idle, [], [], false⟩

/-- `trims` counts, for each device, the opens for writing that are in `scull_trim`. -/
structure World where
  globals : Globals
  devices : List ScullDev
  trims : Nat → Nat
  reader : Reader

inductive Act where
  /-- Somebody else's call on a device, other than an open for writing. -/
  | call (dev : Nat) (call : Call)
  /-- An open for writing loads `dev->data`. -/
  | trimBegins (dev : Nat)
  /-- It has freed what it found, and stored all the fields. -/
  | trimEnds (dev : Nat)
  | start
  | load
  | down (interrupted : Bool)
  | print
  /-- `up`; the text of the device is dropped when the buffer is too small for it. -/
  | up (fits : Bool)
  | stop

/-- Whether a trim of device `k` takes the items from the reader of device `i`. -/
def takes (i : Nat) (before : ScullDev) (k : Nat) : Bool := decide (i = k ∧ before.data ≠ [])

def Phase.trimmed (phase : Phase) (k : Nat) : Phase :=
  match phase with
  | .loaded i before lost => .loaded i before (lost || takes i before k)
  | .locked i before lost => .locked i before (lost || takes i before k)
  | .idle => .idle
  | .on dev => .on dev
  | .walked i before printed items => .walked i before printed items

def scullSeqStart (nr pos : Nat) : Option Nat := if pos ≥ nr then none else some pos

def scullSeqNext (nr pos : Nat) : Option Nat × Nat :=
  let pos := pos + 1
  if pos ≥ nr then (none, pos) else (some pos, pos)

def World.at (w : World) (phase : Phase) : World :=
  { w with reader := { w.reader with phase := phase } }

def World.print (w : World) (i : Nat) (before dev : ScullDev) : World :=
  match walk dev.data (headOf before.data) with
  | none => { w with reader := { w.reader with phase := .idle, strayed := true } }
  | some items => w.at (.walked i before dev items)

section Steps
variable (text : Nat → ScullDev → List ScullQset → List Char)

def World.next (w : World) (i : Nat) (before printed : ScullDev) (items : List ScullQset) : World :=
  let (v, pos) := scullSeqNext w.devices.length w.reader.index
  { w with
    reader :=
      { w.reader with
        index := pos
        phase := .on v
        out := w.reader.out ++ text i printed items
        log := w.reader.log ++ [(before, printed)] } }

def World.step (w : World) : Act → Option World
  | .call k call =>
      if call.Trims then none
      else
        w.devices[k]?.bind fun dev =>
          (call.run ⟨w.globals, dev⟩).result.map fun done =>
            { w with globals := done.1.globals, devices := w.devices.set k done.1.dev }
  | .trimBegins k => some { w with trims := Function.update w.trims k (w.trims k + 1) }
  | .trimEnds k =>
      if w.trims k = 0 then none
      else
        w.devices[k]?.bind fun dev =>
          ((Call.scullOpen O_WRONLY).run ⟨w.globals, dev⟩).result.map fun done =>
            { w with
              devices := w.devices.set k done.1.dev
              trims := Function.update w.trims k (w.trims k - 1)
              reader := { w.reader with phase := w.reader.phase.trimmed k } }
  | .start =>
      match w.reader.phase with
      | .idle => some (w.at (.on (scullSeqStart w.devices.length w.reader.index)))
      | _ => none
  | .load =>
      match w.reader.phase with
      | .on (some i) => w.devices[i]?.map fun dev => w.at (.loaded i dev false)
      | _ => none
  | .down interrupted =>
      match w.reader.phase with
      | .loaded i before lost => some (w.at (if interrupted then .idle else .locked i before lost))
      | _ => none
  | .print =>
      match w.reader.phase with
      | .locked i before _ => w.devices[i]?.map fun dev => w.print i before dev
      | _ => none
  | .up fits =>
      match w.reader.phase with
      | .walked i before printed items =>
          some (if fits then w.next text i before printed items else w.at .idle)
      | _ => none
  | .stop =>
      match w.reader.phase with
      | .on _ => some (w.at .idle)
      | _ => none

end Steps

def Phase.Holds (phase : Phase) (k : Nat) : Prop :=
  match phase with
  | .locked i _ _ => i = k
  | .walked i _ _ _ => i = k
  | _ => False

def Phase.Walks (phase : Phase) (k : Nat) : Prop :=
  match phase with
  | .walked i _ _ _ => i = k
  | _ => False

/-- `scull_open` and `scull_ioctl` do not take the semaphore. -/
def World.Allowed (w : World) : Act → Prop
  | .call k call => call.Offered ∧ (call.Locks → ¬ w.reader.phase.Holds k)
  | _ => True

def Moves (text : Nat → ScullDev → List ScullQset → List Char) :
    World → Act → World → Prop :=
  While World.Allowed fun w act w' => w.step text act = some w'

/-- The allocators do not hand out what the reader still points to. -/
def Spares (w : World) (act : Act) : Prop :=
  match act, w.reader.phase with
  | .call k call, .loaded i before _ =>
      i = k → ∀ qs n, headOf before.data = some qs → call.supply n ≠ some qs
  | .call k call, .locked i before _ =>
      i = k → ∀ qs n, headOf before.data = some qs → call.supply n ≠ some qs
  | _, _ => True

def Phase.Clear (phase : Phase) (trims : Nat → Nat) : Prop :=
  match phase with
  | .locked i _ _ => trims i = 0
  | _ => True

/-- From its beginning to its end a trim has the items of its device to itself: nobody
reads or writes them, walks over them or trims them too. -/
def Undisturbed (w : World) : Act → Prop
  | .call k call => call.Locks → w.trims k = 0
  | .trimBegins k => w.trims k = 0 ∧ ¬ w.reader.phase.Walks k
  | .print => w.reader.phase.Clear w.trims
  | _ => True

/-- The runs that the single steps are fine enough for. -/
def Orderly (text : Nat → ScullDev → List ScullQset → List Char) : World → Act → World → Prop :=
  While Undisturbed (While Spares (Moves text))

/-- No device is printed that has been trimmed of items since its pointer was loaded. -/
def Steady (w : World) (act : Act) : Prop :=
  match act, w.reader.phase with
  | .print, .locked _ _ lost => lost = false
  | _, _ => True

/-- The items that are printed of a device: those it has, or none if it had none when the
pointer was loaded. -/
def met (before dev : ScullDev) : List ScullQset := if before.data = [] then [] else dev.data

def transcript (text : Nat → ScullDev → List ScullQset → List Char) (i : Nat) :
    List (ScullDev × ScullDev) → List Char
  | [] => []
  | (before, dev) :: rest => text i dev (met before dev) ++ transcript text (i + 1) rest

/-! ## What the pointer leads to -/

structure Window (before dev : ScullDev) (lost : Bool) : Prop where
  kept : lost = false → before.data ≠ [] → headOf dev.data = headOf before.data
  gone : lost = true → ∃ qs, headOf before.data = some qs ∧ qs ∉ addrs dev.data

section Windows
variable {before dev : ScullDev} {lost : Bool}

theorem window_loaded (dev : ScullDev) : Window dev dev false :=
  ⟨fun _ _ => rfl, fun h => Bool.noConfusion h⟩

theorem Window.walk (h : Window before dev lost) :
    walk dev.data (headOf before.data) = if lost then none else some (met before dev) := by
  cases lost with
  | true =>
    obtain ⟨qs, hqs, hgone⟩ := h.gone rfl
    rw [hqs]
    exact walk_astray hgone
  | false =>
    unfold met
    cases hhead : headOf before.data with
    | none =>
      rw [if_pos (headOf_eq_none.mp hhead)]
      rfl
    | some qs =>
      have hne : before.data ≠ [] := by
        intro hnil
        rw [headOf_eq_none.mpr hnil] at hhead
        cases hhead
      rw [if_neg hne]
      exact walk_head ((h.kept rfl hne).trans hhead)

theorem Window.call {s t : Session} {done : Call × Reply} (h : Window before s.dev lost)
    (hstep : Step s done t) (keeps : ¬ done.1.Trims)
    (spares : ∀ qs n, headOf before.data = some qs → done.1.supply n ≠ some qs) :
    Window before t.dev lost := by
  rcases step_items hstep with ⟨htrims, -⟩ | ⟨-, hitems⟩
  · exact absurd htrims keeps
  · constructor
    · intro hlost hne
      have hkept := h.kept hlost hne
      have hstill : s.dev.data ≠ [] := by
        rw [Ne, ← headOf_eq_none, hkept, headOf_eq_none]
        exact hne
      rw [hitems.head hstill, hkept]
    · intro hlost
      obtain ⟨qs, hqs, hgone⟩ := h.gone hlost
      refine ⟨qs, hqs, fun hback => ?_⟩
      rcases hitems.drawn qs hback with hold | ⟨n, hn⟩
      · exact hgone hold
      · exact spares qs n hqs hn

theorem Window.trimmed (h : Window before dev lost) {after : ScullDev} (hnil : after.data = [])
    (k : Nat) : Window before after (lost || takes k before k) := by
  by_cases hempty : before.data = []
  · have htakes : takes k before k = false := by simp [takes, hempty]
    rw [htakes, Bool.or_false]
    refine ⟨fun _ hne => absurd hempty hne, fun hlost => ?_⟩
    obtain ⟨qs, hqs, -⟩ := h.gone hlost
    rw [headOf_eq_none.mpr hempty] at hqs
    cases hqs
  · have htakes : takes k before k = true := by simp [takes, hempty]
    rw [htakes, Bool.or_true]
    refine ⟨fun h => Bool.noConfusion h, fun _ => ?_⟩
    obtain ⟨qs, hqs⟩ := Option.ne_none_iff_exists'.mp fun hnone => hempty (headOf_eq_none.mp hnone)
    exact ⟨qs, hqs, by simp [hnil, addrs]⟩

end Windows

/-! ## What the reader has printed -/

section Printing
variable {text : Nat → ScullDev → List ScullQset → List Char}

theorem transcript_snoc (i : Nat) (log : List (ScullDev × ScullDev)) (before dev : ScullDev) :
    transcript text i (log ++ [(before, dev)]) =
      transcript text i log ++ text (i + log.length) dev (met before dev) := by
  induction log generalizing i with
  | nil => simp [transcript]
  | cons entry log ih =>
    rw [List.cons_append, transcript, transcript, ih, List.append_assoc, List.length_cons,
      Nat.add_right_comm, Nat.add_assoc]

theorem scullSeqNext_eq (nr pos : Nat) :
    scullSeqNext nr pos = (scullSeqStart nr (pos + 1), pos + 1) := by
  unfold scullSeqNext scullSeqStart
  dsimp only
  split <;> rfl

def Phase.Placed (devices : List ScullDev) (index : Nat) : Phase → Prop
  | .idle => True
  | .on dev => dev = scullSeqStart devices.length index
  | .loaded i before lost => i = index ∧ ∃ dev, devices[i]? = some dev ∧ Window before dev lost
  | .locked i before lost => i = index ∧ ∃ dev, devices[i]? = some dev ∧ Window before dev lost
  | .walked i before printed items => i = index ∧ i < devices.length ∧ items = met before printed

/-- The text so far is that of the first devices, each of them once and in order. -/
structure Sound (text : Nat → ScullDev → List ScullQset → List Char) (w : World) : Prop where
  out : w.reader.out = transcript text 0 w.reader.log
  log : w.reader.log.length = w.reader.index
  index : w.reader.index ≤ w.devices.length
  placed : w.reader.phase.Placed w.devices w.reader.index

variable {w w' : World}

theorem Sound.at (h : Sound text w) {phase : Phase} (hplaced : phase.Placed w.devices w.reader.index) :
    Sound text (w.at phase) :=
  ⟨h.out, h.log, h.index, hplaced⟩

theorem window_use {devices : List ScullDev} {i k : Nat} {before dev after : ScullDev}
    {lost lost' : Bool} (hdev : devices[k]? = some dev)
    (here : i = k → Window before dev lost → Window before after lost')
    (elsewhere : i ≠ k → lost' = lost)
    (h : ∃ dev, devices[i]? = some dev ∧ Window before dev lost) :
    ∃ dev, (devices.set k after)[i]? = some dev ∧ Window before dev lost' := by
  obtain ⟨now, hnow, hwindow⟩ := h
  by_cases hik : i = k
  · subst hik
    cases hdev.symm.trans hnow
    have hlt : i < devices.length := (List.getElem?_eq_some_iff.mp hdev).1
    exact ⟨after, by simp [hlt], here rfl hwindow⟩
  · rw [elsewhere hik]
    exact ⟨now, by rw [List.getElem?_set_ne (Ne.symm hik), hnow], hwindow⟩

theorem call_sound {k : Nat} {call : Call} (h : Sound text w) (spares : Spares w (.call k call))
    (hmove : Moves text w (.call k call) w') :
    Sound text w' ∧ w'.reader.strayed = w.reader.strayed := by
  obtain ⟨⟨hoffered, -⟩, hmove⟩ := hmove
  simp only [World.step] at hmove
  split at hmove
  · cases hmove
  · next keeps =>
    obtain ⟨dev, hdev, hdone⟩ := Option.bind_eq_some_iff.mp hmove
    obtain ⟨⟨s, reply⟩, hran, rfl⟩ := Option.map_eq_some_iff.mp hdone
    have hstep : Step ⟨w.globals, dev⟩ (call, reply) s := ⟨hoffered, hran⟩
    have hplaced := h.placed
    refine ⟨⟨h.out, h.log, by simpa using h.index, ?_⟩, rfl⟩
    unfold Spares at spares
    dsimp only
    cases hphase : w.reader.phase with
    | idle => trivial
    | on v =>
      rw [hphase] at hplaced
      simpa [Phase.Placed] using hplaced
    | loaded i before lost =>
      rw [hphase] at hplaced spares
      have hwindow (hik : i = k) (h : Window before dev lost) : Window before s.dev lost :=
        Window.call h hstep keeps (spares hik)
      exact ⟨hplaced.1, window_use hdev hwindow (fun _ => rfl) hplaced.2⟩
    | locked i before lost =>
      rw [hphase] at hplaced spares
      have hwindow (hik : i = k) (h : Window before dev lost) : Window before s.dev lost :=
        Window.call h hstep keeps (spares hik)
      exact ⟨hplaced.1, window_use hdev hwindow (fun _ => rfl) hplaced.2⟩
    | walked i before printed items =>
      rw [hphase] at hplaced
      simpa [Phase.Placed] using hplaced

theorem trimEnds_sound {k : Nat} (h : Sound text w) (hmove : Moves text w (.trimEnds k) w') :
    Sound text w' ∧ w'.reader.strayed = w.reader.strayed := by
  obtain ⟨-, hmove⟩ := hmove
  simp only [World.step] at hmove
  split at hmove
  · cases hmove
  · obtain ⟨dev, hdev, hdone⟩ := Option.bind_eq_some_iff.mp hmove
    obtain ⟨⟨s, reply⟩, hran, rfl⟩ := Option.map_eq_some_iff.mp hdone
    have hstep : Step ⟨w.globals, dev⟩ (.scullOpen O_WRONLY, reply) s := ⟨trivial, hran⟩
    have hnil : s.dev.data = [] := by
      rcases step_items hstep with ⟨-, hnil⟩ | ⟨hkeeps, -⟩
      · exact hnil
      · exact absurd rfl hkeeps
    have hplaced := h.placed
    refine ⟨⟨h.out, h.log, by simpa using h.index, ?_⟩, rfl⟩
    dsimp only
    have hwindow {i : Nat} {before : ScullDev} {lost : Bool} (hik : i = k)
        (h : Window before dev lost) : Window before s.dev (lost || takes i before k) :=
      hik ▸ h.trimmed hnil i
    have hother {i : Nat} {before : ScullDev} {lost : Bool} (hik : i ≠ k) :
        (lost || takes i before k) = lost := by simp [takes, hik]
    cases hphase : w.reader.phase with
    | idle => trivial
    | on v =>
      rw [hphase] at hplaced
      simpa [Phase.Placed, Phase.trimmed] using hplaced
    | loaded i before lost =>
      rw [hphase] at hplaced
      exact ⟨hplaced.1, window_use hdev hwindow hother hplaced.2⟩
    | locked i before lost =>
      rw [hphase] at hplaced
      exact ⟨hplaced.1, window_use hdev hwindow hother hplaced.2⟩
    | walked i before printed items =>
      rw [hphase] at hplaced
      simpa [Phase.Placed, Phase.trimmed] using hplaced

theorem print_sound {i : Nat} {before dev : ScullDev} {lost : Bool} (h : Sound text w)
    (hphase : w.reader.phase = .locked i before lost) (hdev : w.devices[i]? = some dev) :
    Sound text (w.print i before dev) ∧
      ((w.print i before dev).reader.strayed = true ↔ w.reader.strayed = true ∨ lost = true) := by
  have hplaced := h.placed
  rw [hphase] at hplaced
  obtain ⟨hi, now, hnow, hwindow⟩ := hplaced
  cases hdev.symm.trans hnow
  have hlt : i < w.devices.length := (List.getElem?_eq_some_iff.mp hdev).1
  unfold World.print
  rw [hwindow.walk]
  cases lost with
  | true => exact ⟨⟨h.out, h.log, h.index, trivial⟩, by simp⟩
  | false => exact ⟨h.at ⟨hi, hlt, rfl⟩, by simp [World.at]⟩

theorem next_sound {before printed : ScullDev} (h : Sound text w)
    (hlt : w.reader.index < w.devices.length) :
    Sound text (w.next text w.reader.index before printed (met before printed)) := by
  simp only [World.next, scullSeqNext_eq]
  refine ⟨?_, ?_, hlt, rfl⟩
  · dsimp only
    rw [transcript_snoc, h.out, h.log, Nat.zero_add]
  · simp [h.log]

theorem moves_sound {act : Act} (h : Sound text w) (spares : Spares w act)
    (hmove : Moves text w act w') :
    Sound text w' ∧ (w'.reader.strayed = true ↔ w.reader.strayed = true ∨ ¬ Steady w act) := by
  have hplaced := h.placed
  cases act with
  | call k call =>
    obtain ⟨hsound, hsame⟩ := call_sound h spares hmove
    exact ⟨hsound, by simp [hsame, Steady]⟩
  | trimBegins k =>
    obtain ⟨-, hmove⟩ := hmove
    cases hmove
    exact ⟨⟨h.out, h.log, h.index, hplaced⟩, by simp [Steady]⟩
  | trimEnds k =>
    obtain ⟨hsound, hsame⟩ := trimEnds_sound h hmove
    exact ⟨hsound, by simp [hsame, Steady]⟩
  | start =>
    obtain ⟨-, hmove⟩ := hmove
    simp only [World.step] at hmove
    split at hmove
    · cases hmove
      exact ⟨h.at rfl, by simp [Steady, World.at]⟩
    · cases hmove
  | load =>
    obtain ⟨-, hmove⟩ := hmove
    simp only [World.step] at hmove
    split at hmove
    · next i hphase =>
      obtain ⟨dev, hdev, rfl⟩ := Option.map_eq_some_iff.mp hmove
      rw [hphase] at hplaced
      have hi : i = w.reader.index := by
        simp only [Phase.Placed, scullSeqStart] at hplaced
        split at hplaced
        · cases hplaced
        · exact Option.some.inj hplaced
      exact ⟨h.at ⟨hi, dev, hdev, window_loaded dev⟩, by simp [Steady, World.at]⟩
    · cases hmove
  | down interrupted =>
    obtain ⟨-, hmove⟩ := hmove
    simp only [World.step] at hmove
    split at hmove
    · next i before lost hphase =>
      cases hmove
      rw [hphase] at hplaced
      cases interrupted with
      | true => exact ⟨h.at trivial, by simp [Steady, World.at]⟩
      | false => exact ⟨h.at hplaced, by simp [Steady, World.at]⟩
    · cases hmove
  | print =>
    obtain ⟨-, hmove⟩ := hmove
    simp only [World.step] at hmove
    split at hmove
    · next i before lost hphase =>
      obtain ⟨dev, hdev, rfl⟩ := Option.map_eq_some_iff.mp hmove
      obtain ⟨hsound, hstrayed⟩ := print_sound h hphase hdev
      exact ⟨hsound, by simp [hstrayed, Steady, hphase]⟩
    · cases hmove
  | up fits =>
    obtain ⟨-, hmove⟩ := hmove
    simp only [World.step] at hmove
    split at hmove
    · next i before printed items hphase =>
      cases hmove
      rw [hphase] at hplaced
      obtain ⟨rfl, hlt, rfl⟩ := hplaced
      cases fits with
      | true => exact ⟨next_sound h hlt, by simp [Steady, World.next]⟩
      | false => exact ⟨h.at trivial, by simp [Steady, World.at]⟩
    · cases hmove
  | stop =>
    obtain ⟨-, hmove⟩ := hmove
    simp only [World.step] at hmove
    split at hmove
    · cases hmove
      exact ⟨h.at trivial, by simp [Steady, World.at]⟩
    · cases hmove

theorem run_sound {start : World} (fresh : start.reader = .init) {labels : List Act}
    (run : Run (Orderly text) start labels w) : Sound text w := by
  apply run.invariant (fun _ => Sound text)
  · constructor
    · rw [fresh]
      rfl
    · rw [fresh]
      rfl
    · rw [fresh]
      exact Nat.zero_le _
    · rw [fresh]
      trivial
  · exact fun _ _ _ _ _ h hstep => (moves_sound h hstep.2.1 hstep.2.2).1

/-- The reader has not gone astray if and only if all steps were steady. -/
theorem strayed_iff {start : World} (fresh : start.reader = .init) {labels : List Act}
    (run : Run (Orderly text) start labels w) :
    w.reader.strayed = false ↔ Run (While Steady (Orderly text)) start labels w := by
  constructor
  · intro hfine
    induction run with
    | nil => exact .nil
    | @snoc labels s act t earlier hstep ih =>
      have hiff := (moves_sound (run_sound fresh earlier) hstep.2.1 hstep.2.2).2
      rw [hfine, Bool.false_eq_true, false_iff, not_or, not_not, Bool.not_eq_true] at hiff
      exact (ih hiff.1).snoc ⟨hiff.2, hstep⟩
  · intro steady
    induction steady with
    | nil => rw [fresh]; rfl
    | @snoc labels s act t earlier hstep ih =>
      have hsound := run_sound fresh earlier.forget
      have hiff := (moves_sound hsound hstep.2.2.1 hstep.2.2.2).2
      rw [ih earlier.forget, Bool.false_eq_true, false_or] at hiff
      rw [← Bool.not_eq_true, hiff]
      exact not_not_intro hstep.1

theorem Sound.ended (h : Sound text w) (hend : w.reader.phase = .on none) :
    w.reader.index = w.devices.length := by
  have hplaced := h.placed
  rw [hend] at hplaced
  simp only [Phase.Placed, scullSeqStart] at hplaced
  split at hplaced
  · next hge => exact Nat.le_antisymm h.index hge
  · cases hplaced

theorem Sound.finishes (h : Sound text w) (untrimmed : ∀ k, w.trims k = 0) {v : Option Nat}
    (hphase : w.reader.phase = .on v) :
    ∃ labels w', Run (Orderly text) w labels w' ∧
      labels.length = 4 * (w.devices.length - w.reader.index) ∧
      w'.reader.phase = .on none ∧ w'.reader.strayed = w.reader.strayed := by
  induction hleft : w.devices.length - w.reader.index generalizing w v with
  | zero =>
    have hplaced := h.placed
    rw [hphase] at hplaced
    have hnone : v = none := by
      rw [show v = _ from hplaced, scullSeqStart, if_pos (by omega)]
    exact ⟨[], w, .nil, rfl, hnone ▸ hphase, rfl⟩
  | succ left ih =>
    have hlt : w.reader.index < w.devices.length := by omega
    have hplaced := h.placed
    rw [hphase] at hplaced
    have hv : v = some w.reader.index := by
      rw [show v = _ from hplaced, scullSeqStart, if_neg (by omega)]
    rw [hv] at hphase
    obtain ⟨dev, hdev⟩ : ∃ dev, w.devices[w.reader.index]? = some dev :=
      ⟨_, List.getElem?_eq_getElem hlt⟩
    have hload : Orderly text w .load (w.at (.loaded w.reader.index dev false)) :=
      ⟨trivial, trivial, trivial, by simp [World.step, hphase, hdev]⟩
    have hdown : Orderly text (w.at (.loaded w.reader.index dev false)) (.down false)
        (w.at (.locked w.reader.index dev false)) := ⟨trivial, trivial, trivial, rfl⟩
    have hwalk : walk dev.data (headOf dev.data) = some (met dev dev) := (window_loaded dev).walk
    have hprint : Orderly text (w.at (.locked w.reader.index dev false)) .print
        (w.at (.walked w.reader.index dev dev (met dev dev))) := by
      refine ⟨untrimmed _, trivial, trivial, ?_⟩
      simp [World.step, World.at, World.print, hdev, hwalk]
    have hup : Orderly text (w.at (.walked w.reader.index dev dev (met dev dev))) (.up true)
        (w.next text w.reader.index dev dev (met dev dev)) := ⟨trivial, trivial, trivial, rfl⟩
    have hsound := @next_sound text w dev dev h hlt
    generalize hnext : w.next text w.reader.index dev dev (met dev dev) = next at hup hsound
    have hfields : next.reader.index = w.reader.index + 1 ∧ next.devices = w.devices ∧
        next.trims = w.trims ∧ next.reader.strayed = w.reader.strayed ∧
        next.reader.phase = .on (scullSeqStart w.devices.length (w.reader.index + 1)) := by
      rw [← hnext]
      simp [World.next, scullSeqNext_eq]
    obtain ⟨hindex, hdevices, htrims, hstrayed, hnextPhase⟩ := hfields
    obtain ⟨labels, w', hrun, hlength, hend, hsame⟩ :=
      ih hsound (htrims ▸ untrimmed) hnextPhase (by rw [hindex, hdevices]; omega)
    refine ⟨.load :: .down false :: .print :: .up true :: labels, w', ?_, ?_, hend,
      hsame.trans hstrayed⟩
    · exact .cons hload (.cons hdown (.cons hprint (.cons hup hrun)))
    · simp only [List.length_cons, hlength]
      omega

end Printing

/-! ## Runs that can be computed -/

section Decidable

instance : DecidablePred Call.Locks := fun call =>
  match call with
  | .scullOpen _ => .isFalse id
  | .scullRead _ _ _ => .isTrue trivial
  | .scullWrite _ _ _ => .isTrue trivial
  | .scullIoctl _ => .isFalse id

instance (phase : Phase) (k : Nat) : Decidable (phase.Holds k) :=
  match phase with
  | .idle => .isFalse id
  | .on _ => .isFalse id
  | .loaded _ _ _ => .isFalse id
  | .locked i _ _ => inferInstanceAs (Decidable (i = k))
  | .walked i _ _ _ => inferInstanceAs (Decidable (i = k))

instance (phase : Phase) (k : Nat) : Decidable (phase.Walks k) :=
  match phase with
  | .idle => .isFalse id
  | .on _ => .isFalse id
  | .loaded _ _ _ => .isFalse id
  | .locked _ _ _ => .isFalse id
  | .walked i _ _ _ => inferInstanceAs (Decidable (i = k))

instance (phase : Phase) (trims : Nat → Nat) : Decidable (phase.Clear trims) :=
  match phase with
  | .idle => .isTrue trivial
  | .on _ => .isTrue trivial
  | .loaded _ _ _ => .isTrue trivial
  | .locked i _ _ => inferInstanceAs (Decidable (trims i = 0))
  | .walked _ _ _ _ => .isTrue trivial

instance (w : World) : DecidablePred w.Allowed := fun act =>
  match act with
  | .call k call =>
      inferInstanceAs (Decidable (call.Offered ∧ (call.Locks → ¬ w.reader.phase.Holds k)))
  | .trimBegins _ => .isTrue trivial
  | .trimEnds _ => .isTrue trivial
  | .start => .isTrue trivial
  | .load => .isTrue trivial
  | .down _ => .isTrue trivial
  | .print => .isTrue trivial
  | .up _ => .isTrue trivial
  | .stop => .isTrue trivial

instance (w : World) : DecidablePred (Undisturbed w) := fun act =>
  match act with
  | .call k call => inferInstanceAs (Decidable (call.Locks → w.trims k = 0))
  | .trimBegins k => inferInstanceAs (Decidable (w.trims k = 0 ∧ ¬ w.reader.phase.Walks k))
  | .trimEnds _ => .isTrue trivial
  | .start => .isTrue trivial
  | .load => .isTrue trivial
  | .down _ => .isTrue trivial
  | .print => inferInstanceAs (Decidable (w.reader.phase.Clear w.trims))
  | .up _ => .isTrue trivial
  | .stop => .isTrue trivial

def World.tidyStep (text : Nat → ScullDev → List ScullQset → List Char) (w : World) (act : Act) :
    Option World :=
  if w.Allowed act ∧ Undisturbed w act then w.step text act else none

def Act.Barren : Act → Prop
  | .call _ made => ∀ n, made.supply n = none
  | _ => True

theorem spares_barren {w : World} {act : Act} (h : act.Barren) : Spares w act := by
  unfold Spares
  split
  · intro _ qs n _ hsupply
    cases (h n).symm.trans hsupply
  · intro _ qs n _ hsupply
    cases (h n).symm.trans hsupply
  · trivial

theorem orderly_run {text : Nat → ScullDev → List ScullQset → List Char} {start w : World}
    {labels : List Act} (run : Run (fun w act w' => w.tidyStep text act = some w') start labels w)
    (barren : ∀ act ∈ labels, act.Barren) : Run (Orderly text) start labels w := by
  apply (@Run.guarded _ _ _ _ (fun _ act => act.Barren) _ _ run fun _ act hact => barren act hact).mono
  rintro w act w' ⟨hbarren, hstep⟩
  unfold World.tidyStep at hstep
  split at hstep
  · next hcond => exact ⟨hcond.2, spares_barren hbarren, hcond.1, hstep⟩
  · cases hstep

end Decidable

end Lister

end MyDrivers.Store
