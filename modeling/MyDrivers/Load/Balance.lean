import Mathlib.Algebra.BigOperators.Group.List.Basic
import MyDrivers.Load.Calls
import MyDrivers.Load.Exit

/-! Whether a whole life of the module `scull` balances: it is loaded, used in any way,
and unloaded. -/
namespace MyDrivers.Load
open Lib
open Store (Addr Env Globals ScullDev reachable scullInitDev)
open Access.Copy (ScullListitem zeroedDev)

def life {size : Nat} (p : Parameters) (answers : LoadAnswers)
    (labels : List (Move size × List (Entry Resource))) (s : State) : List (Entry Resource) :=
  (scullInit .basic p answers).trace ++ used labels ++ (scullExit p s).trace

structure Balanced {size : Nat} (p : Parameters) (answers : LoadAnswers)
    (labels : List (Move size × List (Entry Resource))) (s : State) : Prop where
  /-- `scull_exit` looks at no array that is not there. -/
  ends : (scullExit p s).result = some ()
  /-- Everything acquired is released once, and nothing else is. -/
  settles : settle 0 (life p answers labels s) = some 0

/-- The kernel gives an initialiser all that it asks for. -/
structure Granted (answers : Answers) (count : Nat) : Prop where
  region : 0 ≤ answers.region
  kmalloc : answers.kmalloc ≠ none
  cdevAdd : ∀ i < count, 0 ≤ answers.cdevAdd i

def AccessGranted (answers : AccessAnswers) : Prop :=
  ∀ i < scullAccessNrDevs, 0 ≤ answers.region i ∧ 0 ≤ answers.cdevAdd i

structure AllGranted (p : Parameters) (answers : LoadAnswers) : Prop where
  main : Granted answers.main p.scullNrDevs
  pipes : Granted answers.pipes p.scullPNrDevs
  access : AccessGranted answers.access

/-! ## What loading leaves -/

theorem Outcome.live_or_gone {α β : Type} {first count : Nat} {answers : Answers} {b : β}
    {extra kept : Multiset Resource} {devices : α} {r : Int × Pointer α × Option β}
    (h : Outcome first count answers (some b) extra devices r kept) :
    (∃ array, Granted answers count ∧ r = (0, .live array devices, some b) ∧
      kept = extra + (cdevs array (List.range count) + {.array array, .region first count})) ∨
    (¬ Granted answers count ∧ ∀ array devs, r.2.1 ≠ .live array devs) := by
  cases h with
  | noRegion failed =>
    exact .inr ⟨fun h => absurd failed (Int.not_lt.mpr h.region), by simp⟩
  | noMemory region failed => exact .inr ⟨fun h => h.kmalloc failed, by simp⟩
  | stopped array before i later region memory here failed =>
    exact .inr ⟨fun h => absurd failed (Int.not_lt.mpr (h.cdevAdd i (lt_of_range here))), by simp⟩
  | unfinished array region memory all failed => cases failed
  | done array b' region memory all last =>
    cases last
    exact .inl ⟨array, ⟨region, by simp [memory], all⟩, rfl, rfl⟩

theorem extent_live {α : Type} {pointer : Pointer (List α)} {array : Addr} {count : Nat}
    (h : pointer.extent = .live array count) :
    ∃ devs, pointer = .live array devs ∧ devs.length = count := by
  cases pointer with
  | null => cases h
  | dangling addr => cases h
  | live addr devs =>
    cases h
    exact ⟨devs, rfl, rfl⟩

theorem extent_gone {α : Type} {pointer other : Pointer (List α)}
    (h : pointer.extent = other.extent) (hgone : ∀ array devs, other ≠ .live array devs)
    (array : Addr) (devs : List α) : pointer ≠ .live array devs := by
  rintro rfl
  obtain ⟨devs', hother, -⟩ := extent_live h.symm
  exact hgone array devs' hother

theorem fine_init {g : Globals} (hset : g.Set) (order : Nat) :
    Fine (scullInitDev g .basic order) := ⟨⟨hset.1, hset.2⟩, Store.tidy_nil _⟩

theorem fine_zeroed : Fine zeroedDev :=
  ⟨⟨⟨by decide, by decide⟩, by decide, by decide⟩, Store.tidy_nil _⟩

theorem mkdev_split (dev : Nat) : MKDEV (MAJOR dev) (MINOR dev) = dev := by
  unfold MKDEV MAJOR MINOR
  apply Nat.eq_of_testBit_eq
  intro i
  rw [show 1048575 = 2 ^ 20 - 1 from rfl]
  simp only [Nat.testBit_or, Nat.testBit_shiftLeft, Nat.testBit_and, Nat.testBit_shiftRight,
    Nat.testBit_two_pow_sub_one]
  by_cases hi : 20 ≤ i
  · have hhere : 20 + (i - 20) = i := by omega
    simp [hi, hhere]
  · simp [hi, Nat.lt_of_not_le hi]

/-- Unloading computes the number that the region was acquired under. -/
theorem mainVars_dev (p : Parameters) (answers : LoadAnswers)
    (scullDevices : Pointer (List ScullDev)) :
    MKDEV (mainVars p answers scullDevices).scullMajor (mainVars p answers scullDevices).scullMinor =
      regionOf p.scullMajor answers.main := by
  unfold mainVars
  by_cases hmajor : p.scullMajor = 0
  · simp only [if_pos hmajor]
    exact mkdev_split _
  · simp only [if_neg hmajor]
    rw [regionOf, if_neg fun h => hmajor h.1]

theorem mainVars_devices (p : Parameters) (answers : LoadAnswers)
    (scullDevices : Pointer (List ScullDev)) :
    (mainVars p answers scullDevices).scullDevices = scullDevices := by
  unfold mainVars
  split
  · rfl
  · rfl

theorem fine_accessVars {g : Globals} (hset : g.Set) (answers : AccessAnswers) (done : List Nat)
    (i : Nat) : Fine ((accessVars g answers done).adev i) := by
  simp only [accessVars]
  split
  · exact fine_init hset 0
  · exact fine_zeroed

theorem adev_empty (g : Globals) (answers : AccessAnswers) (done : List Nat) (i : Nat) :
    reachable ((accessVars g answers done).adev i).data = 0 := by
  simp only [accessVars]
  split
  · rfl
  · rfl

theorem loaded_kept {p : Parameters} (settings : p.globals.Set) {main : MainVars}
    {subs : Option (PipeVars × AccessVars)}
    (hmain : ∀ array devs, main.scullDevices = .live array devs → ∀ dev ∈ devs, Fine dev)
    (hsubs : ∀ vars, subs = some vars → ∀ i, Fine (vars.2.adev i)) :
    Kept (State.loaded p main subs) := by
  have hadev (i : Nat) : Fine (subs.elim (fun _ => zeroedDev) (·.2.adev) i) := by
    cases hvars : subs with
    | none => exact fine_zeroed
    | some vars => exact hsubs vars hvars i
  exact ⟨settings, hmain, hadev 0, hadev 1, hadev 2, hadev 3, by simp [State.loaded, FineList]⟩

def liveState (p : Parameters) (answers : LoadAnswers) (array parray : Addr) (done : List Nat) :
    State :=
  .loaded p
    (mainVars p answers (.live array
      (List.replicate p.scullNrDevs (scullInitDev p.globals .basic p.order))))
    (some (pipeVars answers.pipes (.live parray
      (List.replicate p.scullPNrDevs (.init p.scullPBuffer p.mem))),
      accessVars p.globals answers.access done))

def liveHeld (p : Parameters) (answers : LoadAnswers) (array parray : Addr) (done : List Nat) :
    Multiset Resource :=
  accessHeld answers.access done +
    (cdevs parray (List.range p.scullPNrDevs) +
      {.array parray, .region answers.pipes.dev p.scullPNrDevs}) +
    (cdevs array (List.range p.scullNrDevs) +
      {.array array, .region (regionOf p.scullMajor answers.main) p.scullNrDevs})

section Live
variable {p : Parameters} {answers : LoadAnswers} {array parray : Addr} {done : List Nat}

theorem liveState_kept (settings : p.globals.Set) :
    Kept (liveState p answers array parray done) := by
  apply loaded_kept settings
  · rw [mainVars_devices]
    rintro _ _ ⟨⟩ dev hdev
    rw [List.eq_of_mem_replicate hdev]
    exact fine_init settings p.order
  · rintro _ ⟨⟩ i
    exact fine_accessVars settings answers.access done i

theorem liveState_owned : (liveState p answers array parray done).owned = 0 := by
  have hempty := adev_empty p.globals answers.access done
  have hbuffers : buffers (.init p.scullPBuffer p.mem) = 0 := rfl
  have hreachable : reachable (scullInitDev p.globals .basic p.order).data = 0 := rfl
  simp [State.owned, State.stored, liveState, State.loaded, mainVars_devices, Pointer.sum, pipeVars,
    hempty, listed, Access.Session.init, hbuffers, hreachable]

theorem liveState_layout (region : 0 ≤ answers.pipes.region) {s : State}
    (h : s.layout = (liveState p answers array parray done).layout) :
    ∃ devs pdevs, s.main.scullDevices = .live array devs ∧
      s.pipes.scullPDevices = .live parray pdevs ∧
      loadHeld s array parray devs.length pdevs.length p.scullNrDevs p.scullPNrDevs =
        cdevs array (List.range p.scullNrDevs) +
          {.array array, .region (regionOf p.scullMajor answers.main) p.scullNrDevs} +
        (cdevs parray (List.range p.scullPNrDevs) +
          {.array parray, .region answers.pipes.dev p.scullPNrDevs}) +
        ((List.range scullAccessNrDevs).map
          (accessPair (accessVars p.globals answers.access done).scullAccessDevno)).sum := by
  simp only [State.layout, liveState, State.loaded, Prod.mk.injEq, Option.elim_some, pipeVars,
    if_neg (Int.not_lt.mpr region), mainVars_devices, Pointer.extent, List.length_replicate] at h
  obtain ⟨⟨hmajor, hminor, hextent⟩, ⟨hdevno, hpextent⟩, haccess⟩ := h
  obtain ⟨devs, hdevs, hcount⟩ := extent_live hextent
  obtain ⟨pdevs, hpdevs, hpcount⟩ := extent_live hpextent
  have hmkdev : MKDEV s.main.scullMajor s.main.scullMinor = regionOf p.scullMajor answers.main := by
    rw [hmajor, hminor, mainVars_dev]
  refine ⟨devs, pdevs, hdevs, hpdevs, ?_⟩
  rw [loadHeld, hcount, hpcount, hmkdev, hdevno, haccess]

end Live

/-! ## The access devices -/

theorem mem_accessPairs {devno : Nat → Nat} {indices : List Nat} {r : Resource} :
    r ∈ (indices.map (accessPair devno)).sum ↔
      ∃ i ∈ indices, r = .accessCdev i ∨ r = .region (devno i) 1 := by
  induction indices with
  | nil => simp
  | cons i indices ih =>
    rw [List.map_cons, List.sum_cons, Multiset.mem_add, ih]
    simp [accessPair]

theorem mem_accessHeld {answers : AccessAnswers} {done : List Nat} {i : Nat} :
    .accessCdev i ∈ accessHeld answers done ↔ i ∈ done ∧ 0 ≤ answers.cdevAdd i := by
  simp [accessHeld]

theorem accessHeld_granted {answers : AccessAnswers} {done : List Nat}
    (h : ∀ i ∈ done, 0 ≤ answers.cdevAdd i) :
    accessHeld answers done = (done.map (accessPair answers.dev)).sum := by
  induction done with
  | nil => rfl
  | cons i done ih =>
    have hi := h i (List.mem_cons_self ..)
    have hrest := ih fun j hj => h j (List.mem_cons_of_mem _ hj)
    rw [List.map_cons, List.sum_cons, ← hrest]
    simp [accessHeld, accessPair, hi, ← Multiset.cons_coe, Multiset.cons_add, Multiset.add_cons,
      Multiset.insert_eq_cons]

theorem object_not_mem_accessPairs {devno : Nat → Nat} {indices : List Nat} {o : Store.Object} :
    .object o ∉ (indices.map (accessPair devno)).sum := by
  simp [mem_accessPairs]

/-- No entry is at once among those done and the one at which the loop stopped. -/
theorem access_granted {answers : AccessAnswers} {r : Int × List Nat}
    (looped : AccessLooped answers (List.range scullAccessNrDevs) r)
    (hadded : ∀ i < scullAccessNrDevs, i ∈ r.2 ∧ 0 ≤ answers.cdevAdd i) :
    AccessGranted answers := by
  rcases looped with ⟨-, hall⟩ | ⟨j, later, hrange, -⟩
  · exact fun i hi => ⟨hall i (List.mem_range.mpr hi), (hadded i hi).2⟩
  · have hdistinct := @List.nodup_range scullAccessNrDevs
    rw [hrange] at hdistinct
    have hapart := (List.nodup_append.mp hdistinct).2.2
    exact absurd rfl (hapart j (hadded j (lt_of_range hrange)).1 j (List.mem_cons_self ..))

theorem access_done {answers : AccessAnswers} {r : Int × List Nat}
    (looped : AccessLooped answers (List.range scullAccessNrDevs) r)
    (hgranted : AccessGranted answers) : r.2 = List.range scullAccessNrDevs := by
  rcases looped with ⟨hdone, -⟩ | ⟨j, later, hrange, hfailed⟩
  · exact hdone
  · exact absurd hfailed (Int.not_lt.mpr (hgranted j (lt_of_range hrange)).1)

/-- The cleanup takes back what was set up only if all of it was, and if no item is left. -/
theorem access_balances {g : Globals} {answers : AccessAnswers} {r : Int × List Nat}
    (looped : AccessLooped answers (List.range scullAccessNrDevs) r) (list : List ScullListitem) :
    accessHeld answers r.2 + items list =
        ((List.range scullAccessNrDevs).map
          (accessPair (accessVars g answers r.2).scullAccessDevno)).sum ↔
      AccessGranted answers ∧ list = [] := by
  constructor
  · intro h
    refine ⟨access_granted looped fun i hi => ?_, ?_⟩
    · have hmem : Resource.accessCdev i ∈ accessHeld answers r.2 + items list := by
        rw [h]
        exact mem_accessPairs.mpr ⟨i, List.mem_range.mpr hi, .inl rfl⟩
      rcases Multiset.mem_add.mp hmem with hmem | hmem
      · exact mem_accessHeld.mp hmem
      · simp [items] at hmem
    · cases list with
      | nil => rfl
      | cons lptr next =>
        have hmem : Resource.object (lptr.addr, .kmalloc) ∈
            accessHeld answers r.2 + items (lptr :: next) :=
          Multiset.mem_add.mpr (.inr (by simp [items]))
        rw [h] at hmem
        exact absurd hmem object_not_mem_accessPairs
  · rintro ⟨hgranted, rfl⟩
    have hdone := access_done looped hgranted
    have hheld := @accessHeld_granted answers r.2 fun i hi =>
      (hgranted i (List.mem_range.mp (hdone ▸ hi))).2
    rw [hheld, hdone, items, List.map_nil, Multiset.coe_nil, add_zero]
    apply congrArg List.sum
    apply List.map_congr_left
    intro i hi
    simp only [accessPair, accessVars, if_pos hi]

/-! ## The whole module -/

section Unloaded
variable {p : Parameters} {s : State}

theorem exit_main_gone (devices : 0 < p.scullNrDevs)
    (hgone : ∀ array devs, s.main.scullDevices ≠ .live array devs) :
    (scullExit p s).result = none := by
  rw [scullExit, Traced.result_bind, elements_gone devices hgone]
  rfl

theorem exit_pipes_gone (pipes : 0 < p.scullPNrDevs)
    (hgone : ∀ array devs, s.pipes.scullPDevices ≠ .live array devs) :
    (scullExit p s).result = none := by
  have hcleanup : (scullPCleanup p s).result = none := by
    rw [scullPCleanup, Traced.result_bind, elements_gone pipes hgone]
    rfl
  unfold scullExit
  apply Traced.result_bind_none
  rintro ⟨array, devs⟩
  apply Traced.result_bind_none
  intro _
  apply Traced.result_bind_none
  intro _
  apply Traced.result_bind_none
  intro _
  rw [Traced.result_bind, hcleanup]
  rfl

theorem balanced_live {size : Nat} {answers : LoadAnswers} {array parray : Addr}
    {r : Int × List Nat} {res : Int × MainVars × Option (PipeVars × AccessVars)}
    {labels : List (Move size × List (Entry Resource))} {w : World size}
    (settings : p.globals.Set) (region : 0 ≤ answers.pipes.region)
    (looped : AccessLooped answers.access (List.range scullAccessNrDevs) r)
    (init : (scullInit .basic p answers).Settles some 0 res (liveHeld p answers array parray r.2))
    (run : Run Serial ⟨liveState p answers array parray r.2, []⟩ labels w) :
    Balanced p answers labels w.state ↔
      AccessGranted answers.access ∧ w.state.scullCList = [] := by
  obtain ⟨hused, hsettled⟩ := run_owned (liveState_kept settings) rfl run
    (liveHeld p answers array parray r.2)
  rw [liveState_owned, zero_add] at hused
  obtain ⟨devs, pdevs, hdevs, hpdevs, hheld⟩ := liveState_layout region (run_layout run.forget)
  have hexit := @exit_settles p w.state hsettled.kept array parray devs pdevs hdevs hpdevs
  rw [hheld] at hexit
  have hsettle : settle 0 (life p answers labels w.state) =
      settle (w.state.owned + liveHeld p answers array parray r.2) (scullExit p w.state).trace := by
    have hinit := init.settles
    rw [List.filterMap_some] at hinit
    rw [life, settle_append, settle_append, hinit, Option.bind_some, hused, Option.bind_some]
  have hunloaded := hexit.settles
  rw [List.filterMap_some] at hunloaded
  rw [← @access_balances p.globals answers.access r looped w.state.scullCList]
  have hrest : liveHeld p answers array parray r.2 + items w.state.scullCList =
      cdevs array (List.range p.scullNrDevs) +
        {.array array, .region (regionOf p.scullMajor answers.main) p.scullNrDevs} +
      (cdevs parray (List.range p.scullPNrDevs) +
        {.array parray, .region answers.pipes.dev p.scullPNrDevs}) +
      (accessHeld answers.access r.2 + items w.state.scullCList) := by
    rw [liveHeld]
    abel
  constructor
  · intro h
    have hbalance := settle_balance (hsettle ▸ h.settles) hunloaded
    rw [add_zero, add_assoc, add_right_inj, hrest, add_right_inj] at hbalance
    exact hbalance
  · intro h
    have hnone : items w.state.scullCList = 0 := by
      rw [((access_balances looped w.state.scullCList).mp h).2]
      rfl
    rw [← h, ← hrest, hnone, add_zero] at hunloaded
    exact ⟨hexit.ends, hsettle.trans hunloaded⟩

end Unloaded

/-! ## Lives -/

def Pointer.devices {α : Type} : Pointer (List α) → List α
  | .live _ devs => devs
  | .null | .dangling _ => []

/-- No file is open and nobody is in a call; on the devices of `main.c` and on `scull_single`
no file is kept. -/
structure Closed {size : Nat} (w : World size) : Prop where
  calls : w.calls = []
  pipes : ∀ dev ∈ w.state.pipes.scullPDevices.devices, dev.files = []
  uid : w.state.scullU.handles = []
  wuid : w.state.scullW.handles = []
  copy : w.state.scullCFiles = []

def allGranted : LoadAnswers := { secondFails with main := granted (MKDEV 240 0) 4096 }

theorem allGranted_granted : AllGranted twoDevices allGranted where
  main := ⟨by decide, by decide, fun _ _ => Int.le_refl 0⟩
  pipes := ⟨by decide, by decide, fun _ _ => Int.le_refl 0⟩
  access := fun _ _ => ⟨Int.le_refl 0, Int.le_refl 0⟩

theorem twoDevices_set : twoDevices.globals.Set := ⟨⟨by decide, by decide⟩, by decide, by decide⟩

def loadedState : State := liveState twoDevices allGranted 4096 8192 (List.range scullAccessNrDevs)

/-- A part from its beginning to its end. -/
def whole (id : Nat) (use : Use 16) : List (Move 16) := [.begins id use, .starts id, .ends id]

/-- Nothing fails, and objects come from `first` on. -/
def supplied (first : Nat) : Env := ⟨false, fun n => some (first + 64 * n), fun _ => 0, 8⟩

def storing (place : Place) (buff : List Store.Byte) (first : Nat) : Use 16 :=
  .transfer place (.write buff 0) (supplied first)

/-- A write waits while its device is read, and another device is trimmed meanwhile; what it
wrote is trimmed away, and `scull_single` and a pipe are used. -/
def overlapping : List (Move 16) :=
  whole 1 (storing (.main 0) [5] 16384) ++
    [.begins 1 (.transfer (.main 1) (.read 2 0) (supplied 20480)),
      .begins 2 (storing (.main 1) [1, 2] 24576), .begins 3 (.trim (.main 0)), .starts 1, .starts 3,
      .begins 4 (.transfer (.main 1) (.read 2 0) (supplied 28672)), .ends 1, .starts 2, .ends 3,
      .ends 2, .starts 4, .ends 4] ++
    whole 5 (.trim (.main 1)) ++ whole 5 (storing .single [7] 32768) ++
    whole 6 (.lookfor none 3 fun _ => none) ++
    whole 7 (.pipe 0 (.scullPOpen ⟨true, false⟩ false (some ⟨36864, fun _ => 0, by decide, by decide⟩))) ++
    whole 7 (.pipe 0 (.scullPRelease ⟨true, false⟩ false))

def livedThrough (cond : World 16 → Move 16 → Prop) [∀ w m, Decidable (cond w m)]
    (moves : List (Move 16)) : Booking (World 16) :=
  moves.foldlM (fun w m => if cond w m then m.run w else unusable) ⟨loadedState, []⟩

theorem overlapping_ends : (livedThrough World.Undisturbed overlapping).result.isSome := by
  decide +kernel

theorem closed_of {size : Nat} {w : World size} (h : w.calls.isEmpty = true ∧
    (∀ dev ∈ w.state.pipes.scullPDevices.devices, dev.files = []) ∧ w.state.scullU.handles = [] ∧
      w.state.scullW.handles = [] ∧ w.state.scullCFiles = []) : Closed w :=
  ⟨List.isEmpty_iff.mp h.1, h.2.1, h.2.2.1, h.2.2.2.1, h.2.2.2.2⟩

theorem no_items {s : State} (h : s.scullCList.isEmpty = true) : s.scullCList = [] :=
  List.isEmpty_iff.mp h

def openAndClose : List (Move 16) :=
  whole 1 (.lookfor (some 7) 3 fun _ => some 16384) ++ whole 1 (.scullCRelease ⟨7, 3⟩)

theorem openAndClose_ends : (livedThrough World.Undisturbed openAndClose).result.isSome := by
  decide +kernel

/-- A write has read `dev->qset` before the device is trimmed under another setting. -/
def staleQset : List (Move 16) :=
  [.begins 1 (storing (.main 0) [5] 16384)] ++
    whole 2 (.ioctl ⟨Store.SCULL_IOCTQSET, 3, true, true, none, true⟩) ++
    whole 2 (.trim (.main 0)) ++ [.starts 1, .ends 1]

/-- Two opens for writing find the same list. -/
def crossedTrims : List (Move 16) :=
  whole 1 (storing (.main 0) [5] 16384) ++
    [.begins 2 (.trim (.main 0)), .begins 3 (.trim (.main 0)), .starts 2, .starts 3, .ends 2,
      .ends 3]

def Anyhow (_ : World 16) (_ : Move 16) : Prop := True

instance (w : World 16) (m : Move 16) : Decidable (Anyhow w m) := inferInstanceAs (Decidable True)

theorem staleQset_ends : (livedThrough Anyhow staleQset).result.isSome := by decide +kernel

theorem crossedTrims_ends : (livedThrough Anyhow crossedTrims).result.isSome := by decide +kernel

/-- `scull_exit` looks for a slot that the array of the stale write does not have. -/
theorem stale_unbalanced :
    ∃ main subs labels w, (scullInit .basic twoDevices allGranted).result = some (0, main, subs) ∧
      labels.map Prod.fst = staleQset ∧ Run Moves (.loaded twoDevices main subs) labels w ∧
      Closed w ∧ w.state.scullCList = [] ∧ ¬ Balanced twoDevices allGranted labels w.state := by
  obtain ⟨labels, hlabels, -, run⟩ := run_moves Anyhow (Option.some_get staleQset_ends).symm
  refine ⟨_, _, labels, _, rfl, hlabels, run.forget, closed_of (by decide +kernel),
    no_items (by decide +kernel), fun h => ?_⟩
  have hends := h.ends
  revert hends
  decide +kernel

/-- The list that both opens have found is freed twice. -/
theorem crossed_unbalanced :
    ∃ main subs labels w, (scullInit .basic twoDevices allGranted).result = some (0, main, subs) ∧
      labels.map Prod.fst = crossedTrims ∧ Run Moves (.loaded twoDevices main subs) labels w ∧
      Closed w ∧ w.state.scullCList = [] ∧ ¬ Balanced twoDevices allGranted labels w.state := by
  obtain ⟨labels, hlabels, hused, run⟩ := run_moves Anyhow (Option.some_get crossedTrims_ends).symm
  refine ⟨_, _, labels, _, rfl, hlabels, run.forget, closed_of (by decide +kernel),
    no_items (by decide +kernel), fun h => ?_⟩
  have hsettles := h.settles
  rw [life, hused] at hsettles
  revert hsettles
  decide +kernel

end MyDrivers.Load
