import MyDrivers.Store.Lister

/-! `proc_read` of `scull/proc.c` while others use the devices, and a user who reads
`/proc/scullmem` in pieces. -/
namespace MyDrivers.Store
open Lib Lib.Format Lib.Machine
open Lister (Act World transcript met)

/-- What the loop of `proc_read` prints of a device, with the items that its walk meets. -/
def procShow (i : Nat) (d : ScullDev) (items : List ScullQset) : List Char :=
  sprintf (deviceFormat i d) ++ listItems d.qset items

/-- What follows on the loop. -/
def procCopy (text : List Char) (count : Nat) (ppos : Int) (accessible : Nat) : Listing :=
  let len := int32 text.length
  if ppos ≥ len then ⟨some text, 0, ppos, 0⟩
  else
    let count := if uint64 (ppos + count) > uint64 len then uint64 (len - ppos) else count
    if accessible < count then ⟨some text, -EFAULT, ppos, accessible⟩
    else ⟨some text, int64 count, int64 (ppos + count), count⟩

theorem procRead_finished {devices : List ScullDev} {env : ProcEnv} (hkmalloc : env.kmalloc)
    (hnever : env.interrupted = none) (count : Nat) (ppos : Int) :
    procRead devices count ppos env =
      procCopy (listDevices none 0 devices).1 count ppos env.accessible := by
  have hfinished (i : Nat) : (listDevices none i devices).2 = true := by
    induction devices generalizing i with
    | nil => rfl
    | cons d rest ih => simp [listDevices, ih]
  unfold procRead procCopy
  simp [hkmalloc, hnever, hfinished]

def snapshot (entry : ScullDev × ScullDev) : ScullDev :=
  { entry.2 with data := met entry.1 entry.2 }

theorem transcript_procShow (i : Nat) (log : List (ScullDev × ScullDev)) :
    transcript procShow i log = (listDevices none i (log.map snapshot)).1 := by
  induction log generalizing i with
  | nil => rfl
  | cons entry log ih =>
    rw [transcript, ih]
    simp [listDevices, procShow, snapshot, deviceFormat]

/-- Whatever the others do, where trims overlap no other use of the items they free and the
allocators do not hand out at once what the reader still points to: the reader goes astray
exactly when it prints a device that has been trimmed of items since its pointer was
loaded. A read whose loop has come to its end hands over what it would hand over if nobody
else had been there and each device were as it was when it was printed, but without items
if it had none when its pointer was loaded. -/
theorem procRead_among {start w : World} (fresh : start.reader = .init) {labels : List Act}
    (run : Run (Lister.Orderly procShow) start labels w) :
    (w.reader.strayed = false ↔
      Run (While Lister.Steady (Lister.Orderly procShow)) start labels w) ∧
    (w.reader.phase = .on none → w.reader.log.length = w.devices.length ∧
      ∀ env : ProcEnv, env.kmalloc → env.interrupted = none → ∀ count ppos,
        procCopy w.reader.out count ppos env.accessible =
          procRead (w.reader.log.map snapshot) count ppos env) := by
  have hsound := Lister.run_sound fresh run
  refine ⟨Lister.strayed_iff fresh run, fun ended => ⟨hsound.log.trans (hsound.ended ended), ?_⟩⟩
  intro env hkmalloc hnever count ppos
  rw [procRead_finished hkmalloc hnever, hsound.out, transcript_procShow]

def twoDevices : World :=
  ⟨.default 1024 4096,
    [⟨[⟨4096, none⟩], 4, 2, 0, 0, .basic⟩,
      ⟨[⟨8192, some ⟨8448, [some ⟨8704, .kmalloc, [1, 2, 3, 0]⟩, none]⟩⟩], 4, 2, 3, 0, .basic⟩],
    fun _ => 0, .init⟩

/-- The first is trimmed before its pointer is loaded, and again during the walk over the
second, which has been written to and is trimmed in the end. -/
def trimmedAround : List Act :=
  [.start, .trimBegins 0, .trimEnds 0, .load, .down false, .print, .up true, .load,
    .call 1 (.scullWrite [9] 3 ⟨false, fun _ => none, fun _ => 0, 1⟩), .down false, .print,
    .trimBegins 0, .trimEnds 0, .up true, .trimBegins 1, .trimEnds 1]

theorem procRead_among_trimmed : ∃ w,
    Run (Lister.Orderly procShow) twoDevices trimmedAround w ∧
      Run (While Lister.Steady (Lister.Orderly procShow)) twoDevices trimmedAround w ∧
      w.reader.log.length = 2 ∧
      procCopy w.reader.out 4096 0 4096 =
        procRead (w.reader.log.map snapshot) 4096 0 ⟨true, none, 4096⟩ := by
  have hpossible : ((trimmedAround.foldlM (World.tidyStep procShow) twoDevices).any fun w =>
      w.reader.strayed = false ∧ w.reader.phase = .on none ∧ w.devices.length = 2) = true := by
    decide +kernel
  obtain ⟨w, hw, hrun⟩ := Run.of_any hpossible
  obtain ⟨hfine, hended, hcount⟩ := of_decide_eq_true hw
  have horderly : Run (Lister.Orderly procShow) twoDevices trimmedAround w := by
    apply Lister.orderly_run hrun
    intro act hact
    simp only [trimmedAround, List.mem_cons, List.not_mem_nil, or_false] at hact
    rcases hact with rfl | rfl | rfl | rfl | rfl | rfl | rfl | rfl | rfl | rfl | rfl | rfl | rfl |
      rfl | rfl | rfl <;> simp [Lister.Act.Barren, Call.supply]
  obtain ⟨hstrayed, hread⟩ := procRead_among rfl horderly
  obtain ⟨hlength, hsame⟩ := hread hended
  exact ⟨w, horderly, hstrayed.mp hfine, hlength.trans hcount, hsame ⟨true, none, 4096⟩ rfl rfl 4096 0⟩

/-! ## In pieces -/

def Listing.bytes (t : Listing) (ppos : Int) : List Char :=
  ((t.sbuf.getD []).drop ppos.toNat).take t.copied

/-- One read after the other of the same file, while nobody changes the devices: what they
hand over, and the position afterwards. -/
def readPieces (devices : List ScullDev) (env : ProcEnv) : Int → List Nat → List Char × Int
  | ppos, [] => ([], ppos)
  | ppos, count :: counts =>
      let t := procRead devices count ppos env
      let (rest, pos) := readPieces devices env t.pos counts
      (t.bytes ppos ++ rest, pos)

theorem procCopy_eq {text : List Char} (hlen : text.length < 2147483648) {count p accessible n : Nat}
    (hcount : count < 9223372036854775808) (hcopy : count ≤ accessible) (hp : p ≤ text.length)
    (hn : n = min count (text.length - p)) :
    procCopy text count p accessible = ⟨some text, n, (p + n : Nat), n⟩ := by
  have hint : int32 text.length = text.length := int32_eq_self (by omega) (by omega)
  unfold procCopy
  rw [hint]
  dsimp only
  by_cases hend : (p : Int) ≥ text.length
  · have hzero : n = 0 := by omega
    simp [hend, hzero]
  · have hsum : uint64 (p + count) = p + count := by
      rw [uint64_eq_toNat (by omega) (by omega)]
      omega
    have hall : uint64 text.length = text.length := by
      rw [uint64_eq_toNat (by omega) (by omega)]
      omega
    have hleft : uint64 (text.length - p) = text.length - p := by
      rw [uint64_eq_toNat (by omega) (by omega)]
      omega
    have hclamp : (if uint64 (p + count) > uint64 text.length then uint64 (text.length - p)
        else count) = n := by
      rw [hsum, hall, hleft]
      split <;> omega
    rw [if_neg hend, hclamp, if_neg (by omega), int64_eq_self (by omega) (by omega),
      int64_eq_self (by omega) (by omega), Int.natCast_add]

theorem readPieces_cons {devices : List ScullDev} {env : ProcEnv} (hkmalloc : env.kmalloc)
    (hnever : env.interrupted = none) {text : List Char}
    (htext : (listDevices none 0 devices).1 = text) (hlen : text.length < 2147483648)
    {count p n : Nat} (hcount : count < 9223372036854775808) (hcopy : count ≤ env.accessible)
    (hp : p ≤ text.length) (hn : n = min count (text.length - p)) (counts : List Nat) :
    readPieces devices env p (count :: counts) =
      ((text.drop p).take n ++ (readPieces devices env (p + n : Nat) counts).1,
        (readPieces devices env (p + n : Nat) counts).2) := by
  rw [readPieces, procRead_finished hkmalloc hnever, htext, procCopy_eq hlen hcount hcopy hp hn]
  simp [Listing.bytes]

theorem readPieces_eq {devices : List ScullDev} {env : ProcEnv} (hkmalloc : env.kmalloc)
    (hnever : env.interrupted = none) {text : List Char}
    (htext : (listDevices none 0 devices).1 = text) (hlen : text.length < 2147483648)
    {counts : List Nat}
    (hcounts : ∀ count ∈ counts, count < 9223372036854775808 ∧ count ≤ env.accessible) {p : Nat}
    (hp : p ≤ text.length) :
    readPieces devices env p counts =
      ((text.drop p).take counts.sum, ((min (p + counts.sum) text.length : Nat) : Int)) := by
  induction counts generalizing p with
  | nil => simp [readPieces, hp]
  | cons count counts ih =>
    obtain ⟨hcount, hcopy⟩ := hcounts count (List.mem_cons_self ..)
    rw [readPieces_cons hkmalloc hnever htext hlen hcount hcopy hp rfl,
      ih (fun count h => hcounts count (List.mem_cons_of_mem _ h)) (by omega), List.sum_cons]
    have hpos : min (p + min count (text.length - p) + counts.sum) text.length =
        min (p + (count + counts.sum)) text.length := by omega
    rw [hpos]
    congr 1
    by_cases hshort : count ≤ text.length - p
    · rw [min_eq_left hshort, List.take_add, List.drop_drop]
    · have hall : min count (text.length - p) = text.length - p := by omega
      have hend : p + (text.length - p) = text.length := by omega
      rw [hall, hend, List.drop_length, List.take_nil, List.append_nil, List.take_of_length_le,
        List.take_of_length_le]
      · rw [List.length_drop]
        omega
      · rw [List.length_drop]

/-- A user who reads on gets the listing as a whole, each part once, whatever the sizes of
the reads; and the end is reported when it has been reached, not before. -/
theorem pieces_whole {devices : List ScullDev} {env : ProcEnv} (hkmalloc : env.kmalloc)
    (hnever : env.interrupted = none)
    (fits : (listDevices none 0 devices).1.length + 1 ≤ procBytes) {counts : List Nat}
    (hcounts : ∀ count ∈ counts, count < 9223372036854775808 ∧ count ≤ env.accessible) :
    (readPieces devices env 0 counts).1 = (listDevices none 0 devices).1.take counts.sum ∧
    ∀ count, 0 < count → count < 9223372036854775808 → count ≤ env.accessible →
      ((procRead devices count (readPieces devices env 0 counts).2 env).ret = 0 ↔
        (listDevices none 0 devices).1.length ≤ counts.sum) := by
  generalize htext : (listDevices none 0 devices).1 = text at fits
  have hlen : text.length < 2147483648 := by
    unfold procBytes at fits
    omega
  have hloop := readPieces_eq hkmalloc hnever htext hlen hcounts (Nat.zero_le _)
  rw [Int.natCast_zero, Nat.zero_add] at hloop
  rw [hloop]
  refine ⟨rfl, fun count hpos hcount hcopy => ?_⟩
  rw [procRead_finished hkmalloc hnever, htext,
    procCopy_eq hlen hcount hcopy (min_le_right _ _) rfl]
  dsimp only
  omega

theorem pieces_whole_item :
    (readPieces twoDevices.devices ⟨true, none, 4096⟩ 0 [30, 12, 100]).1 =
      (listDevices none 0 twoDevices.devices).1.take 142 :=
  (@pieces_whole twoDevices.devices ⟨true, none, 4096⟩ rfl rfl (by decide +kernel) [30, 12, 100]
    (by decide +kernel)).1

end MyDrivers.Store
