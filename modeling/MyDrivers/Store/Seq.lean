import MyDrivers.Store.Lister

/-! `/proc/scullseq` (`scull/proc.c`). What the kernel's `seq_file` does between two calls of
the iterator, and where it stops and starts again, is left open. -/
namespace MyDrivers.Store
open Lib Lib.Format Lib.Machine
open Lister (Act World transcript)

def seqDeviceFormat (i : Nat) (dev : ScullDev) : List Piece :=
  [.lit "\nDevice ", .int 0 i, .lit " : qset ", .int 0 dev.qset, .lit ", q ",
    .int 0 dev.quantum, .lit ", sz ", .int 0 dev.size, .lit "\n"]

def seqItemFormat (d : ScullQset) : List Piece :=
  [.lit "     item at ", pointer (some d.addr), .lit " qset at ",
    pointer (d.data.map SlotArray.addr), .lit "\n"]

def seqSlotFormat (i : Nat) (block : Block) : List Piece :=
  [.lit "             ", .int 4 i, .lit ": ", pointer (some block.addr)]

/-- The loop over the items; of the last one the slots that hold a block are shown. -/
def seqItems (qset : Int) : List ScullQset → List Char
  | [] => []
  | d :: next =>
      let slots :=
        match d.data with
        | none => []
        | some array =>
            if next.isEmpty then
              (List.range qset.toNat).flatMap fun i =>
                match array.slots[i]?.join with
                | some block => sprintf (seqSlotFormat i block)
                | none => []
            else []
      sprintf (seqItemFormat d) ++ slots ++ seqItems qset next

/-- What `scull_seq_show` prints of a device, with the items that its walk meets. -/
def scullSeqShow (i : Nat) (dev : ScullDev) (items : List ScullQset) : List Char :=
  sprintf (seqDeviceFormat i dev) ++ seqItems dev.qset items

/-- Whatever the others do, and however the file is read, where trims overlap no other use
of the items they free and the allocators do not hand out at once what the reader still
points to: the text is that of the first devices, each printed once and in order, and of all
of them at the end, which can be reached. The reader goes astray exactly when it prints a
device that has been trimmed of items since its pointer was loaded. -/
theorem seq_lists {start w : World} (fresh : start.reader = .init) {labels : List Act}
    (run : Run (Lister.Orderly scullSeqShow) start labels w) :
    (w.reader.strayed = false ↔
      Run (While Lister.Steady (Lister.Orderly scullSeqShow)) start labels w) ∧
    w.reader.out = transcript scullSeqShow 0 w.reader.log ∧
    w.reader.log.length = w.reader.index ∧
    (w.reader.phase = .on none → w.reader.index = w.devices.length) ∧
    ((∀ k, w.trims k = 0) → ∀ v, w.reader.phase = .on v →
      ∃ labels' w', Run (Lister.Orderly scullSeqShow) w labels' w' ∧
        labels'.length = 4 * (w.devices.length - w.reader.index) ∧
        w'.reader.phase = .on none ∧ w'.reader.strayed = w.reader.strayed) := by
  have hsound := Lister.run_sound fresh run
  refine ⟨Lister.strayed_iff fresh run, hsound.out, hsound.log, hsound.ended, ?_⟩
  exact fun untrimmed v => hsound.finishes untrimmed

def twoItems : World :=
  ⟨.default 1024 4096,
    [⟨[⟨4096, none⟩], 4, 2, 0, 0, .basic⟩,
      ⟨[⟨8192, some ⟨8448, [some ⟨8704, .kmalloc, [1, 2, 3, 0]⟩, none]⟩⟩], 4, 2, 3, 0, .basic⟩],
    fun _ => 0, .init⟩

def trimmedSecond : List Act :=
  [.start, .load, .down false, .print, .call 1 (.scullWrite [9] 3 ⟨false, fun _ => none, fun _ => 0, 1⟩),
    .up true, .trimBegins 1, .load, .trimEnds 1, .down false, .print]

theorem trimmedSecond_run : ∃ w, Run (Lister.Orderly scullSeqShow) twoItems trimmedSecond w ∧
    w.reader.strayed = true ∧ w.reader.index = 1 := by
  have hpossible : ((trimmedSecond.foldlM (World.tidyStep scullSeqShow) twoItems).any fun w =>
      w.reader.strayed ∧ w.reader.index = 1) = true := by
    decide +kernel
  obtain ⟨w, hw, hrun⟩ := Run.of_any hpossible
  refine ⟨w, Lister.orderly_run hrun ?_, of_decide_eq_true hw⟩
  intro act hact
  simp only [trimmedSecond, List.mem_cons, List.not_mem_nil, or_false] at hact
  rcases hact with rfl | rfl | rfl | rfl | rfl | rfl | rfl | rfl | rfl | rfl | rfl <;>
    simp [Lister.Act.Barren, Call.supply]

theorem seq_lists_trimmed : ∃ w,
    Run (Lister.Orderly scullSeqShow) twoItems trimmedSecond w ∧
    ¬ Run (While Lister.Steady (Lister.Orderly scullSeqShow)) twoItems trimmedSecond w := by
  obtain ⟨w, hrun, hstrayed, -⟩ := trimmedSecond_run
  refine ⟨w, hrun, fun hsteady => ?_⟩
  have hfine := (seq_lists rfl hrun).1.mpr hsteady
  rw [hfine] at hstrayed
  cases hstrayed

end MyDrivers.Store
