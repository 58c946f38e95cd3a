import MyDrivers.Lib.Format
import MyDrivers.Store.Bounds

/-! `/proc/scullmem` (`scull/proc.c`): the text that `proc_read` makes of all devices,
and whether it fits its buffer. Nothing changes the devices while they are listed. -/
namespace MyDrivers.Store
open Lib Lib.Format Lib.Machine

/-- `scull_nr_devs`. -/
def scullNrDevs : Nat := 4

/-- `max_pages * page_size`. -/
def procBytes : Nat := 20 * 4096

/-- `%px`, which prints `NULL` as a number too. -/
def pointer (p : Option Addr) : Piece := .hex 16 (uint64 (p.getD 0))

def deviceFormat (i : Nat) (d : ScullDev) : List Piece :=
  [.lit "\n Device ", .int 0 i, .lit ": qset ", .int 0 d.qset, .lit ", quantum ",
    .int 0 d.quantum, .lit ", sz ", .int 0 d.size, .lit "\n"]

def itemFormat (qs : ScullQset) : List Piece :=
  [.lit "    item at ", pointer (some qs.addr), .lit ", qset at ",
    pointer (qs.data.map SlotArray.addr), .lit "\n"]

def slotFormat (array : SlotArray) (j : Nat) : List Piece :=
  [.lit "    ", .int 4 j, .lit ": ", pointer (array.slots[j]?.join.map Block.addr), .lit "\n"]

/-- The loop over the items; the slots are shown of the last one only. -/
def listItems (qset : Int) : List ScullQset → List Char
  | [] => []
  | qs :: next =>
      let slots :=
        match qs.data with
        | none => []
        | some array =>
            if next.isEmpty then
              (List.range qset.toNat).flatMap fun j => sprintf (slotFormat array j)
            else []
      sprintf (itemFormat qs) ++ slots ++ listItems qset next

/-- The loop over the devices, and whether it came to its end: the wait for the
semaphore of device `interrupted` is interrupted. -/
def listDevices (interrupted : Option Nat) (i : Nat) : List ScullDev → List Char × Bool
  | [] => ([], true)
  | d :: rest =>
      if interrupted = some i then ([], false)
      else
        let (text, finished) := listDevices interrupted (i + 1) rest
        (sprintf (deviceFormat i d) ++ listItems d.qset d.data ++ text, finished)

structure ProcEnv where
  kmalloc : Bool
  interrupted : Option Nat
  accessible : Nat

/-- What a read does: the text that it prints into `sbuf`, the value it returns, `*ppos`
afterwards and the bytes that were copied. -/
structure Listing where
  sbuf : Option (List Char)
  ret : Int
  pos : Int
  copied : Nat

def procRead (devices : List ScullDev) (count : Nat) (ppos : Int) (env : ProcEnv) : Listing :=
  if ¬ env.kmalloc then ⟨none, 0, ppos, 0⟩
  else
    let (text, finished) := listDevices env.interrupted 0 devices
    if ¬ finished then ⟨some text, -ERESTARTSYS, ppos, 0⟩
    else
      let len := int32 text.length
      if ppos ≥ len then ⟨some text, 0, ppos, 0⟩
      else
        let count := if uint64 (ppos + count) > uint64 len then uint64 (len - ppos) else count
        if env.accessible < count then ⟨some text, -EFAULT, ppos, env.accessible⟩
        else ⟨some text, int64 count, int64 (ppos + count), count⟩

/-! ## How long the text is -/

def endsInSlots (items : List ScullQset) : Prop := ∃ qs ∈ items.getLast?, qs.data.isSome

instance (items : List ScullQset) : Decidable (endsInSlots items) :=
  inferInstanceAs (Decidable (∃ qs ∈ items.getLast?, qs.data.isSome))

/-- A device of the default geometry: a line for itself, one for each item, and a
thousand for the slots of the last item. -/
def listed (d : ScullDev) : Nat :=
  41 + intWidth d.size + 55 * d.data.length + if endsInSlots d.data then 27000 else 0

def ProcEnv.reached (env : ProcEnv) (devices : List ScullDev) : List ScullDev :=
  match env.interrupted with
  | none => devices
  | some i => devices.take i

def ListingFits (env : ProcEnv) (devices : List ScullDev) : Prop :=
  env.kmalloc → ((env.reached devices).map listed).sum < procBytes

theorem width_pointer (p : Option Addr) : (pointer p).width = 16 := by
  have hlt : uint64 (p.getD 0) < 18446744073709551616 := by
    unfold uint64
    omega
  exact max_eq_left (hexDigits_le hlt)

theorem width_deviceFormat {i : Nat} (hi : i < 10) {d : ScullDev} (hqset : d.qset = QSET_SIZE)
    (hquantum : d.quantum = QUANTUM_SIZE) : width (deviceFormat i d) = 41 + intWidth d.size := by
  have hindex : intWidth i = 1 := by
    have hpos := intWidth_pos i
    rw [intWidth_natCast] at hpos ⊢
    have hle : digits 10 i ≤ 1 := (digits_le_iff (by decide) (by decide)).mpr hi
    omega
  have hsettings : intWidth QSET_SIZE = 4 ∧ intWidth QUANTUM_SIZE = 4 := by decide +kernel
  have hlits : "\n Device ".length = 9 ∧ ": qset ".length = 7 ∧ ", quantum ".length = 10 ∧
      ", sz ".length = 5 ∧ "\n".length = 1 := by decide
  simp only [deviceFormat, width_cons, width_nil, width_lit, width_int, hlits, hqset, hquantum,
    hsettings, hindex, Nat.zero_max]
  omega

theorem width_itemFormat (qs : ScullQset) : width (itemFormat qs) = 55 := by
  have hlits : "    item at ".length = 12 ∧ ", qset at ".length = 10 ∧ "\n".length = 1 := by
    decide
  simp only [itemFormat, width_cons, width_nil, width_lit, width_pointer, hlits]

theorem width_slotFormat (array : SlotArray) {j : Nat} (hj : j < 1000) :
    width (slotFormat array j) = 27 := by
  have hindex : intWidth j ≤ 4 := by
    apply intWidth_le (by decide)
    omega
  have hlits : "    ".length = 4 ∧ ": ".length = 2 ∧ "\n".length = 1 := by decide
  simp only [slotFormat, width_cons, width_nil, width_lit, width_int, width_pointer, hlits,
    max_eq_left hindex]

theorem length_slots (array : SlotArray) :
    ((List.range QSET_SIZE.toNat).flatMap fun j => sprintf (slotFormat array j)).length = 27000 := by
  have hline : ∀ j ∈ List.range QSET_SIZE.toNat, (sprintf (slotFormat array j)).length = 27 := by
    intro j hj
    rw [length_sprintf, width_slotFormat array (List.mem_range.mp hj)]
  rw [List.length_flatMap, List.map_congr_left hline]
  decide +kernel

theorem endsInSlots_single (qs : ScullQset) : endsInSlots [qs] ↔ qs.data.isSome := by
  simp [endsInSlots]

theorem endsInSlots_cons (qs qs' : ScullQset) (next : List ScullQset) :
    endsInSlots (qs :: qs' :: next) ↔ endsInSlots (qs' :: next) := by
  rw [endsInSlots, List.getLast?_cons_cons, endsInSlots]

theorem length_listItems (items : List ScullQset) :
    (listItems QSET_SIZE items).length =
      55 * items.length + if endsInSlots items then 27000 else 0 := by
  induction items with
  | nil => simp [listItems, endsInSlots]
  | cons qs next ih =>
    rw [listItems, List.length_append, List.length_append, length_sprintf, width_itemFormat, ih,
      List.length_cons]
    cases next with
    | nil =>
      simp only [endsInSlots_single]
      cases hdata : qs.data with
      | none => simp [endsInSlots]
      | some array =>
        have hslots := length_slots array
        simp [endsInSlots, hslots]
    | cons qs' next =>
      simp only [endsInSlots_cons, List.isEmpty_cons, Bool.false_eq_true, if_false]
      cases qs.data <;> simp only [List.length_nil] <;> omega

theorem length_listDevices {interrupted : Option Nat} {i : Nat}
    (hahead : ∀ k, interrupted = some k → i ≤ k) {devices : List ScullDev}
    (hcount : i + devices.length ≤ 10)
    (hdefault : ∀ d ∈ devices, d.qset = QSET_SIZE ∧ d.quantum = QUANTUM_SIZE) :
    (listDevices interrupted i devices).1.length =
      ((match interrupted with
        | none => devices
        | some k => devices.take (k - i)).map listed).sum := by
  induction devices generalizing i with
  | nil => cases interrupted <;> simp [listDevices]
  | cons d rest ih =>
    rw [List.length_cons] at hcount
    by_cases hstop : interrupted = some i
    · simp [listDevices, hstop]
    · have hnext : ∀ k, interrupted = some k → i + 1 ≤ k := by
        intro k hk
        have hne : k ≠ i := fun h => hstop (h ▸ hk)
        have := hahead k hk
        omega
      have hrest := ih hnext (by omega) fun d hd => hdefault d (List.mem_cons_of_mem _ hd)
      obtain ⟨hqset, hquantum⟩ := hdefault d (List.mem_cons_self ..)
      have hdevice : (sprintf (deviceFormat i d) ++ listItems d.qset d.data).length = listed d := by
        rw [List.length_append, length_sprintf, width_deviceFormat (by omega) hqset hquantum, hqset,
          length_listItems, listed]
        omega
      simp only [listDevices, if_neg hstop]
      rw [List.length_append, hdevice, hrest]
      cases interrupted with
      | none => simp
      | some k =>
        have hk := hnext k rfl
        have htake : (d :: rest).take (k - i) = d :: rest.take (k - (i + 1)) := by
          rw [← List.take_succ_cons]
          congr 1
          omega
        simp only [htake, List.map_cons, List.sum_cons]

/-! ## Use of the devices -/

structure Driver where
  globals : Globals
  devices : List ScullDev
  deriving DecidableEq

def Driver.init (g : Globals) : Driver :=
  ⟨g, List.replicate scullNrDevs (scullInitDev g .basic 0)⟩

/-- A call on device number `label.1`; the settings are not touched. -/
def Driver.Step (s : Driver) (label : Nat × Call × Reply) (t : Driver) : Prop :=
  (∀ call, label.2.1 ≠ .scullIoctl call) ∧
    ∃ dev dev', s.devices[label.1]? = some dev ∧
      Store.Step ⟨s.globals, dev⟩ label.2 ⟨s.globals, dev'⟩ ∧
      t = ⟨s.globals, s.devices.set label.1 dev'⟩

structure Driver.Default (s : Driver) : Prop where
  quantum : s.globals.scullQuantum = QUANTUM_SIZE
  qset : s.globals.scullQsetN = QSET_SIZE
  count : s.devices.length = scullNrDevs
  devices : ∀ d ∈ s.devices, d.qset = QSET_SIZE ∧ d.quantum = QUANTUM_SIZE

theorem default_init (cacheSize pageSize : Nat) : (Driver.init (.default cacheSize pageSize)).Default where
  quantum := rfl
  qset := rfl
  count := List.length_replicate
  devices := by
    intro d hd
    rw [List.eq_of_mem_replicate hd]
    exact ⟨rfl, rfl⟩

theorem step_geometry {s t : Session} {done : Call × Reply} (h : Step s done t) :
    (t.dev.qset = s.dev.qset ∧ t.dev.quantum = s.dev.quantum) ∨
      (t.dev.qset = s.globals.scullQsetN ∧ t.dev.quantum = s.globals.scullQuantum) := by
  cases step_cases h with
  | trim => exact .inr ⟨rfl, rfl⟩
  | enter => exact .inl ⟨rfl, rfl⟩
  | read count pos env transfer returned =>
    rw [(scullRead_effect _ _ _ _ transfer returned).1]
    exact .inl ⟨rfl, rfl⟩
  | write buff pos env transfer returned =>
    rw [(scullWrite_effect _ _ _ _ _ transfer returned).1]
    exact .inl ⟨rfl, rfl⟩
  | ioctl => exact .inl ⟨rfl, rfl⟩

theorem default_step {s t : Driver} {label : Nat × Call × Reply} (h : s.Default)
    (hstep : s.Step label t) : t.Default := by
  obtain ⟨hcalls, dev, dev', hdev, hstep, rfl⟩ := hstep
  have hold := h.devices dev (List.mem_of_getElem? hdev)
  have hnew : dev'.qset = QSET_SIZE ∧ dev'.quantum = QUANTUM_SIZE := by
    rcases step_geometry hstep with ⟨hqset, hquantum⟩ | ⟨hqset, hquantum⟩
    · exact ⟨hqset.trans hold.1, hquantum.trans hold.2⟩
    · exact ⟨hqset.trans h.qset, hquantum.trans h.quantum⟩
  refine ⟨h.quantum, h.qset, ?_, ?_⟩
  · rw [List.length_set]
    exact h.count
  · intro d hd
    rcases List.mem_or_eq_of_mem_set hd with hd | rfl
    · exact h.devices d hd
    · exact hnew

theorem procRead_sbuf (devices : List ScullDev) (count : Nat) (ppos : Int) (env : ProcEnv) :
    (procRead devices count ppos env).sbuf =
      if env.kmalloc then some (listDevices env.interrupted 0 devices).1 else none := by
  unfold procRead
  split
  · rfl
  · next hkmalloc =>
    rw [if_pos (not_not.mp hkmalloc)]
    dsimp only
    repeat' split
    all_goals rfl

/-- The listing of a state that use with the default settings leads to fits its buffer
if and only if the devices that are listed have few enough items and slots. -/
theorem listing_iff (cacheSize pageSize : Nat) {labels : List (Nat × Call × Reply)} {s : Driver}
    (run : Run Driver.Step (.init (.default cacheSize pageSize)) labels s) (count : Nat)
    (ppos : Int) (env : ProcEnv) :
    (∀ text, (procRead s.devices count ppos env).sbuf = some text → text.length + 1 ≤ procBytes) ↔
      ListingFits env s.devices := by
  have hdefault : s.Default :=
    run.invariant (fun _ s => s.Default) (default_init cacheSize pageSize)
      fun _ _ _ _ _ h hstep => default_step h hstep
  have hcount : 0 + s.devices.length ≤ 10 := by
    rw [hdefault.count]
    decide
  have hlength : (listDevices env.interrupted 0 s.devices).1.length =
      ((env.reached s.devices).map listed).sum :=
    length_listDevices (fun k _ => Nat.zero_le k) hcount hdefault.devices
  rw [procRead_sbuf, ListingFits, ← hlength]
  constructor
  · intro h hkmalloc
    exact h _ (if_pos hkmalloc)
  · intro h text htext
    split at htext
    · next hkmalloc =>
      cases htext
      exact h hkmalloc
    · cases htext

def mark (i : Nat) : Nat × Call × Reply :=
  (i, .scullWrite [7] 0 { Env.calm with supply := fun k => some (4096 * (3 * i + k + 1)) },
    ⟨1, 1, [7]⟩)

def marked (i : Nat) : ScullDev :=
  ⟨[⟨4096 * (3 * i + 1), some ⟨4096 * (3 * i + 2),
      some ⟨4096 * (3 * i + 3), .kmalloc, 7 :: List.replicate 1023 0⟩ :: List.replicate 999 none⟩⟩],
    1024, 1000, 1, 0, .basic⟩

theorem mark_step {i : Nat} (hi : i < scullNrDevs) {s : Driver}
    (hglobals : s.globals = .default 1024 4096)
    (hdev : s.devices[i]? = some (scullInitDev (.default 1024 4096) .basic 0)) :
    s.Step (mark i) ⟨.default 1024 4096, s.devices.set i (marked i)⟩ := by
  have hruns : ∀ i < scullNrDevs,
      ((mark i).2.1.run ⟨.default 1024 4096, scullInitDev (.default 1024 4096) .basic 0⟩).result =
        some (⟨.default 1024 4096, marked i⟩, (mark i).2.2) := by
    decide +kernel
  refine ⟨nofun, _, marked i, hdev, ?_, ?_⟩
  · rw [hglobals]
    exact ⟨by simp [mark, Call.Offered], hruns i hi⟩
  · rw [hglobals]
    rfl

def Driver.marked (n : Nat) : Driver :=
  ⟨.default 1024 4096, (List.range scullNrDevs).map fun i =>
    if i < n then Store.marked i else scullInitDev (.default 1024 4096) .basic 0⟩

theorem marked_run {n : Nat} (hn : n ≤ scullNrDevs) :
    Run Driver.Step (.init (.default 1024 4096)) ((List.range n).map mark) (.marked n) := by
  have hfresh : ∀ n < scullNrDevs, (Driver.marked n).devices[n]? =
      some (scullInitDev (.default 1024 4096) .basic 0) := by
    decide +kernel
  have hset (n : Nat) : (Driver.marked n).devices.set n (marked n) =
      (Driver.marked (n + 1)).devices := by
    apply List.ext_getElem
    · simp [Driver.marked]
    · intro i _ _
      simp only [Driver.marked, List.getElem_set, List.getElem_map, List.getElem_range]
      by_cases hi : n = i
      · simp [hi]
      · have hiff : i < n + 1 ↔ i < n := by omega
        simp only [if_neg hi, hiff]
  induction n with
  | zero => exact .nil
  | succ n ih =>
    have hstep := mark_step hn rfl (hfresh n hn)
    rw [hset] at hstep
    rw [List.range_succ, List.map_append]
    exact (ih (Nat.le_of_lt hn)).snoc hstep

/-- A byte in each of three devices is still listed. -/
theorem listing_three :
    ∃ s, Run Driver.Step (.init (.default 1024 4096)) ((List.range 3).map mark) s ∧
      ∀ text, (procRead s.devices 4096 0 ⟨true, none, 4096⟩).sbuf = some text →
        text.length + 1 ≤ procBytes :=
  have run := marked_run (n := 3) (by decide)
  ⟨.marked 3, run, (listing_iff 1024 4096 run 4096 0 ⟨true, none, 4096⟩).mpr fun _ => by decide +kernel⟩

/-- A byte in each of the four is too much. -/
theorem listing_overflows :
    ∃ s, Run Driver.Step (.init (.default 1024 4096)) ((List.range 4).map mark) s ∧
      ¬ ∀ text, (procRead s.devices 4096 0 ⟨true, none, 4096⟩).sbuf = some text →
        text.length + 1 ≤ procBytes := by
  have hdefault : ∀ d ∈ (Driver.marked 4).devices, d.qset = QSET_SIZE ∧ d.quantum = QUANTUM_SIZE := by
    decide +kernel
  have hlength : (listDevices none 0 (Driver.marked 4).devices).1.length =
      ((Driver.marked 4).devices.map listed).sum :=
    length_listDevices (fun k _ => Nat.zero_le k) (by decide) hdefault
  have hsum : procBytes ≤ ((Driver.marked 4).devices.map listed).sum := by decide +kernel
  refine ⟨.marked 4, marked_run le_rfl, fun h => ?_⟩
  have hsbuf : (procRead (Driver.marked 4).devices 4096 0 ⟨true, none, 4096⟩).sbuf =
      some (listDevices none 0 (Driver.marked 4).devices).1 :=
    procRead_sbuf _ _ _ _
  have hfits := h _ hsbuf
  rw [hlength] at hfits
  exact absurd hfits (Nat.not_le.mpr (Nat.lt_succ_of_le hsum))

end MyDrivers.Store
