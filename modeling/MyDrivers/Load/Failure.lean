import MyDrivers.Load.Init

/-! What `scull_init` leaves behind when a call to the kernel fails. -/
namespace MyDrivers.Load
open Lib
open Store (Addr Byte Globals ScullDev ScullType scullInitDev)

def cdevs (array : Addr) (indices : List Nat) : Multiset Resource :=
  (indices.map (Resource.cdev array) : List Resource)

section Devices
variable {held : Multiset Resource}

theorem acquire_settles (key : Resource) :
    (acquire key).Settles some held () (key ::ₘ held) := .acquire rfl

theorem release_settles (key : Resource) :
    (release key).Settles some (key ::ₘ held) () held := .release rfl

theorem setupCdev_settles {key : Resource} {res : Int} (h : 0 ≤ res) :
    (setupCdev key res).Settles some held true (key ::ₘ held) := by
  rw [setupCdev, if_neg (Int.not_lt.mpr h)]
  exact .bind (acquire_settles key) (.pure true)

theorem setupCdev_failed {key : Resource} {res : Int} (h : res < 0) :
    (setupCdev key res).Settles some held false held := by
  rw [setupCdev, if_pos h]
  exact .pure false

theorem lt_of_range {n i : Nat} {before later : List Nat}
    (here : List.range n = before ++ i :: later) : i < n := by
  rw [← List.mem_range, here]
  simp

inductive Looped (array : Addr) (res : Nat → Int) (indices : List Nat) (loop : Booking Bool) : Prop
  | added (all : ∀ i ∈ indices, 0 ≤ res i)
      (settles : ∀ held, loop.Settles some held true (cdevs array indices + held))
  | stopped (before : List Nat) (i : Nat) (later : List Nat) (here : indices = before ++ i :: later)
      (failed : res i < 0)
      (settles : ∀ held, loop.Settles some held false (cdevs array before + held))

theorem cdevs_cons (array : Addr) (i : Nat) (rest : List Nat) (held : Multiset Resource) :
    cdevs array rest + .cdev array i ::ₘ held = cdevs array (i :: rest) + held := by
  simp [cdevs, ← Multiset.cons_coe, Multiset.add_cons, Multiset.cons_add]

theorem setupLoop_looped (array : Addr) (res : Nat → Int) (indices : List Nat) :
    Looped array res indices (setupLoop (fun i => setupCdev (.cdev array i) (res i)) indices) := by
  induction indices with
  | nil =>
    refine .added (by simp) fun held => ?_
    rw [cdevs, List.map_nil, Multiset.coe_nil, zero_add]
    exact .pure true
  | cons i rest ih =>
    by_cases hi : res i < 0
    · refine .stopped [] i rest rfl hi fun held => ?_
      rw [cdevs, List.map_nil, Multiset.coe_nil, zero_add]
      exact .bind (setupCdev_failed hi) (.pure false)
    · have hi := Int.not_lt.mp hi
      cases ih with
      | added all settles =>
        refine .added ?_ fun held => ?_
        · intro j hj
          rcases List.mem_cons.mp hj with rfl | hj
          · exact hi
          · exact all j hj
        · rw [← cdevs_cons]
          exact .bind (setupCdev_settles hi) (settles _)
      | stopped before j later here failed settles =>
        refine .stopped (i :: before) j later (by rw [here]; rfl) failed fun held => ?_
        rw [← cdevs_cons]
        exact .bind (setupCdev_settles hi) (settles _)

theorem failMalloc_settles (first count : Nat) (res : Int) :
    (failMalloc first count res).Settles some (.region first count ::ₘ held) res held :=
  .bind (release_settles _) (.pure res)

theorem failCdev_settles (array : Addr) (first count : Nat) (res : Int)
    (kept : Multiset Resource) :
    (failCdev array first count res).Settles some
      (kept + .array array ::ₘ .region first count ::ₘ held) res (kept + held) := by
  rw [Multiset.add_cons, Multiset.add_cons]
  exact .bind (release_settles _) (failMalloc_settles first count res)

inductive Outcome {α β : Type} (first count : Nat) (answers : Answers) (finished : Option β)
    (extra : Multiset Resource) (devices : α) :
    Int × Pointer α × Option β → Multiset Resource → Prop
  | noRegion (failed : answers.region < 0) :
      Outcome first count answers finished extra devices (answers.region, .null, none) 0
  | noMemory (region : 0 ≤ answers.region) (failed : answers.kmalloc = none) :
      Outcome first count answers finished extra devices (answers.region, .null, none) 0
  | stopped (array : Addr) (before : List Nat) (i : Nat) (later : List Nat)
      (region : 0 ≤ answers.region) (memory : answers.kmalloc = some array)
      (here : List.range count = before ++ i :: later) (failed : answers.cdevAdd i < 0) :
      Outcome first count answers finished extra devices (answers.region, .dangling array, none)
        (cdevs array before)
  | unfinished (array : Addr) (region : 0 ≤ answers.region)
      (memory : answers.kmalloc = some array) (all : ∀ i < count, 0 ≤ answers.cdevAdd i)
      (failed : finished = none) :
      Outcome first count answers finished extra devices (answers.region, .dangling array, none)
        (cdevs array (List.range count))
  | done (array : Addr) (b : β) (region : 0 ≤ answers.region)
      (memory : answers.kmalloc = some array) (all : ∀ i < count, 0 ≤ answers.cdevAdd i)
      (last : finished = some b) :
      Outcome first count answers finished extra devices (0, .live array devices, some b)
        (extra + (cdevs array (List.range count) + {.array array, .region first count}))

theorem initDevices_outcome {α β : Type} {stage : Booking (Option β)} {finished : Option β}
    {extra : Multiset Resource}
    (hstage : ∀ held, stage.Settles some held finished (extra + held))
    (hextra : finished = none → extra = 0) (first count : Nat) (answers : Answers)
    (devices : α) :
    ∃ r kept, Outcome first count answers finished extra devices r kept ∧ ∀ held,
      (initDevices (fun array i => setupCdev (.cdev array i) (answers.cdevAdd i)) stage first count
        answers devices).Settles some held r (kept + held) := by
  unfold initDevices
  by_cases hregion : answers.region < 0
  · refine ⟨_, _, .noRegion hregion, fun held => ?_⟩
    rw [if_pos hregion, zero_add]
    exact .pure _
  rw [if_neg hregion]
  have hregion := Int.not_lt.mp hregion
  cases hmemory : answers.kmalloc with
  | none =>
    refine ⟨_, _, .noMemory hregion hmemory, fun held => .bind (acquire_settles _) ?_⟩
    rw [zero_add]
    exact .bind (failMalloc_settles first count answers.region) (.pure _)
  | some array =>
    cases setupLoop_looped array answers.cdevAdd (List.range count) with
    | stopped before i later here failed settles =>
      refine ⟨_, _, .stopped array before i later hregion hmemory here failed, fun held => ?_⟩
      refine .bind (acquire_settles _) (.bind (acquire_settles _) (.bind (settles _) ?_))
      exact .bind (failCdev_settles array first count answers.region _) (.pure _)
    | added all settles =>
      have hall : ∀ i < count, 0 ≤ answers.cdevAdd i :=
        fun i hi => all i (List.mem_range.mpr hi)
      cases hfinished : finished with
      | none =>
        refine ⟨_, _, .unfinished array hregion hmemory hall rfl, fun held => ?_⟩
        refine .bind (acquire_settles _) (.bind (acquire_settles _) (.bind (settles _) ?_))
        have hend := hstage (cdevs array (List.range count) +
          .array array ::ₘ .region first count ::ₘ held)
        rw [hextra hfinished, zero_add, hfinished] at hend
        exact .bind hend (.bind (failCdev_settles array first count answers.region _) (.pure _))
      | some b =>
        refine ⟨_, _, .done array b hregion hmemory hall rfl, fun held => ?_⟩
        refine .bind (acquire_settles _) (.bind (acquire_settles _) (.bind (settles _) ?_))
        have hend := hstage (cdevs array (List.range count) +
          .array array ::ₘ .region first count ::ₘ held)
        have hkept : extra + (cdevs array (List.range count) +
            .array array ::ₘ .region first count ::ₘ held) =
            extra + (cdevs array (List.range count) + {.array array, .region first count}) +
              held := by
          simp [add_assoc, Multiset.insert_eq_cons, Multiset.cons_add]
        rw [hfinished, hkept] at hend
        exact .bind hend (.pure _)

/-! ## The initialisers that `scull` calls -/

def pipeVars (answers : Answers) (scullPDevices : Pointer (List Pipe.Session)) : PipeVars :=
  ⟨if answers.region < 0 then 0 else answers.dev, scullPDevices⟩

def accessVars (g : Globals) (answers : AccessAnswers) (done : List Nat) : AccessVars :=
  ⟨fun i => if i ∈ done then answers.dev i else 0,
    fun i => if i ∈ done then scullInitDev g .basic 0 else Access.Copy.zeroedDev⟩

theorem scullPInit_outcome (size nr : Nat) (mem : Nat → Byte) (answers : Answers) :
    ∃ r kept, Outcome answers.dev nr answers (some ()) 0 (List.replicate nr (.init size mem)) r kept ∧
      ∀ held, (scullPInit size nr mem answers).Settles some held
        (r.1, pipeVars answers r.2.1) (kept + held) := by
  have hstage (held : Multiset Resource) :
      (pure (some ()) : Booking (Option Unit)).Settles some held (some ()) (0 + held) := by
    rw [zero_add]
    exact .pure _
  obtain ⟨r, kept, outcome, settles⟩ := initDevices_outcome hstage (by simp) answers.dev nr answers
    (List.replicate nr (Pipe.Session.init size mem))
  exact ⟨r, kept, outcome, fun held => .bind (settles held) (.pure _)⟩

def accessHeld (answers : AccessAnswers) (done : List Nat) : Multiset Resource :=
  (done.map fun i => Resource.region (answers.dev i) 1 : List Resource) +
    ((done.filter fun i => 0 ≤ answers.cdevAdd i).map Resource.accessCdev : List Resource)

def AccessLooped (answers : AccessAnswers) (indices : List Nat) (r : Int × List Nat) : Prop :=
  (r.2 = indices ∧ ∀ i ∈ indices, 0 ≤ answers.region i) ∨
    ∃ i later, indices = r.2 ++ i :: later ∧ answers.region i < 0

theorem accessLoop_looped (answers : AccessAnswers) (indices : List Nat) :
    ∃ r, AccessLooped answers indices r ∧ ∀ held,
      (accessLoop answers indices).Settles some held r (accessHeld answers r.2 + held) := by
  induction indices with
  | nil =>
    refine ⟨(0, []), .inl ⟨rfl, by simp⟩, fun held => ?_⟩
    simp only [accessHeld, List.map_nil, List.filter_nil, Multiset.coe_nil, zero_add]
    exact .pure _
  | cons i rest ih =>
    unfold accessLoop
    by_cases hregion : answers.region i < 0
    · refine ⟨(answers.region i, []), .inr ⟨i, rest, rfl, hregion⟩, fun held => ?_⟩
      rw [if_pos hregion]
      simp only [accessHeld, List.map_nil, List.filter_nil, Multiset.coe_nil, zero_add]
      exact .pure _
    · obtain ⟨⟨res, done⟩, hlooped, settles⟩ := ih
      rw [if_neg hregion]
      refine ⟨(res, i :: done), ?_, fun held => .bind (acquire_settles _) ?_⟩
      · rcases hlooped with ⟨hdone, hall⟩ | ⟨j, later, hrest, hfailed⟩
        · refine .inl ⟨congrArg (i :: ·) hdone, ?_⟩
          intro j hj
          rcases List.mem_cons.mp hj with rfl | hj
          · exact Int.not_lt.mp hregion
          · exact hall j hj
        · exact .inr ⟨j, later, by rw [hrest]; rfl, hfailed⟩
      · by_cases hcdev : answers.cdevAdd i < 0
        · have hheld : accessHeld answers (i :: done) + held =
              accessHeld answers done + .region (answers.dev i) 1 ::ₘ held := by
            simp [accessHeld, not_le.mpr hcdev, ← Multiset.cons_coe,
              Multiset.cons_add, Multiset.add_cons]
          rw [hheld]
          exact .bind (setupCdev_failed hcdev) (.bind (settles _) (.pure _))
        · have hcdev := Int.not_lt.mp hcdev
          have hheld : accessHeld answers (i :: done) + held = accessHeld answers done +
              .accessCdev i ::ₘ .region (answers.dev i) 1 ::ₘ held := by
            simp [accessHeld, hcdev, ← Multiset.cons_coe, Multiset.cons_add,
              Multiset.add_cons]
          rw [hheld]
          exact .bind (setupCdev_settles hcdev) (.bind (settles _) (.pure _))

theorem scullAccessInit_outcome (g : Globals) (answers : AccessAnswers) :
    ∃ r, AccessLooped answers (List.range scullAccessNrDevs) r ∧ ∀ held,
      (scullAccessInit g answers).Settles some held (r.1, accessVars g answers r.2)
        (accessHeld answers r.2 + held) := by
  obtain ⟨r, hlooped, settles⟩ := accessLoop_looped answers (List.range scullAccessNrDevs)
  exact ⟨r, hlooped, fun held => .bind (settles held) (.pure _)⟩

/-! ## scull_init -/

theorem basicStage_settles (p : Parameters) (answers : LoadAnswers) :
    ∃ rp keptp ra,
      Outcome answers.pipes.dev p.scullPNrDevs answers.pipes (some ()) 0
        (List.replicate p.scullPNrDevs (.init p.scullPBuffer p.mem)) rp keptp ∧
      AccessLooped answers.access (List.range scullAccessNrDevs) ra ∧
      ∀ held, (initStage .basic p answers).Settles some held
        (some (some (pipeVars answers.pipes rp.2.1, accessVars p.globals answers.access ra.2)))
        (accessHeld answers.access ra.2 + keptp + held) := by
  obtain ⟨rp, keptp, outcome, settles⟩ := scullPInit_outcome p.scullPBuffer p.scullPNrDevs p.mem
    answers.pipes
  obtain ⟨ra, hlooped, settles'⟩ := scullAccessInit_outcome p.globals answers.access
  refine ⟨rp, keptp, ra, outcome, hlooped, fun held => ?_⟩
  rw [add_assoc]
  exact .bind (settles held) (.bind (settles' _) (.pure _))

/-- The stage after the loop fails only in `scullc` and `scullp`. -/
theorem initStage_settles (type : ScullType) (p : Parameters) (answers : LoadAnswers) :
    ∃ finished extra, (finished = none ↔ type ≠ .basic ∧ answers.created = false) ∧
      (finished = none → extra = 0) ∧
      ∀ held, (initStage type p answers).Settles some held finished (extra + held) := by
  have hcache (htype : type ≠ .basic) :
      ∃ (finished : Option (Option (PipeVars × AccessVars))) (extra : Multiset Resource),
      (finished = none ↔ type ≠ .basic ∧ answers.created = false) ∧ (finished = none → extra = 0) ∧
      ∀ held, (if answers.created then do
          acquire .cache
          return some none
        else pure none : Booking (Option (Option (PipeVars × AccessVars)))).Settles some held
          finished (extra + held) := by
    cases answers.created with
    | false =>
      refine ⟨none, 0, by simp [htype], fun _ => rfl, fun held => ?_⟩
      rw [zero_add]
      exact .pure none
    | true => exact ⟨some none, {.cache}, by simp, by simp, fun held =>
        .bind (acquire_settles .cache) (.pure _)⟩
  cases type with
  | basic =>
    obtain ⟨rp, keptp, ra, -, -, settles⟩ := basicStage_settles p answers
    exact ⟨_, _, by simp, by simp, settles⟩
  | c => exact hcache (by simp)
  | p => exact hcache (by simp)

def mainVars (p : Parameters) (answers : LoadAnswers) (scullDevices : Pointer (List ScullDev)) :
    MainVars :=
  let dev := regionOf p.scullMajor answers.main
  if p.scullMajor = 0 then ⟨MAJOR dev, MINOR dev, scullDevices⟩
  else ⟨p.scullMajor, 0, scullDevices⟩

theorem scullInit_outcome {type : ScullType} {p : Parameters} {answers : LoadAnswers}
    {finished : Option (Option (PipeVars × AccessVars))} {extra : Multiset Resource}
    (hextra : finished = none → extra = 0)
    (hstage : ∀ held, (initStage type p answers).Settles some held finished (extra + held)) :
    ∃ r kept, Outcome (regionOf p.scullMajor answers.main) p.scullNrDevs answers.main finished extra
        (List.replicate p.scullNrDevs (scullInitDev p.globals type p.order)) r kept ∧
      ∀ held, (scullInit type p answers).Settles some held
        (r.1, mainVars p answers r.2.1, r.2.2.join) (kept + held) := by
  obtain ⟨r, kept, outcome, settles⟩ := initDevices_outcome hstage hextra
    (regionOf p.scullMajor answers.main) p.scullNrDevs answers.main
    (List.replicate p.scullNrDevs (scullInitDev p.globals type p.order))
  exact ⟨r, kept, outcome, fun held => .bind (settles held) (.pure _)⟩

/-- One of the calls before the sub-initialisers fails. -/
def Failed (type : ScullType) (p : Parameters) (answers : LoadAnswers) : Prop :=
  answers.main.region < 0 ∨ answers.main.kmalloc = none ∨
    (∃ i < p.scullNrDevs, answers.main.cdevAdd i < 0) ∨ (type ≠ .basic ∧ answers.created = false)

/-- No region, no device array and no `cdev` of an array is left. -/
def Undone (held : Multiset Resource) : Prop :=
  (∀ first count, .region first count ∉ held) ∧ (∀ addr, .array addr ∉ held) ∧
    ∀ addr index, .cdev addr index ∉ held

/-- `scull_init` reports a failure, and undoes what it did before it. -/
def Reports (type : ScullType) (p : Parameters) (answers : LoadAnswers) : Prop :=
  ∃ r held, (scullInit type p answers).Settles some 0 r held ∧
    (r.1 < 0 ↔ Failed type p answers) ∧ (Failed type p answers → Undone held)

/-- Only the failure of the region call is reported. -/
theorem reports_iff (type : ScullType) (p : Parameters) (answers : LoadAnswers) :
    Reports type p answers ↔ answers.main.region < 0 ∨ ¬ Failed type p answers := by
  obtain ⟨finished, extra, hfinished, hextra, hstage⟩ := initStage_settles type p answers
  obtain ⟨r, kept, outcome, settles⟩ := scullInit_outcome hextra hstage
  have hunique : ∀ r' held, (scullInit type p answers).Settles some 0 r' held → r'.1 = r.1 := by
    intro r' held h
    have hsame := h.ends
    rw [(settles 0).ends] at hsame
    cases hsame
    rfl
  -- a failure that comes with a value that is not negative
  have hsilent (hregion : 0 ≤ answers.main.region) (hvalue : r.1 = answers.main.region)
      (hfailed : Failed type p answers) :
      Reports type p answers ↔ answers.main.region < 0 ∨ ¬ Failed type p answers := by
    refine iff_of_false ?_ (by rintro (h | h); exacts [absurd h (Int.not_lt.mpr hregion), h hfailed])
    rintro ⟨r', held, hsettles, hreported, -⟩
    have := hreported.mpr hfailed
    rw [hunique r' held hsettles, hvalue] at this
    exact absurd this (Int.not_lt.mpr hregion)
  have hsettles := settles 0
  rw [add_zero] at hsettles
  cases outcome with
  | noRegion failed =>
    refine iff_of_true ⟨_, _, hsettles, iff_of_true failed (.inl failed), fun _ => ?_⟩ (.inl failed)
    exact ⟨by simp, by simp, by simp⟩
  | noMemory region failed => exact hsilent region rfl (.inr (.inl failed))
  | stopped array before i later region memory here failed =>
    exact hsilent region rfl (.inr (.inr (.inl ⟨i, lt_of_range here, failed⟩)))
  | unfinished array region memory all failed =>
    exact hsilent region rfl (.inr (.inr (.inr (hfinished.mp failed))))
  | done array b region memory all last =>
    have hnone : ¬ Failed type p answers := by
      rintro (h | h | ⟨i, hi, h⟩ | h)
      · exact absurd h (Int.not_lt.mpr region)
      · rw [memory] at h
        cases h
      · exact absurd h (Int.not_lt.mpr (all i hi))
      · rw [hfinished.mpr h] at last
        cases last
    refine iff_of_true ⟨_, _, hsettles, iff_of_false (by simp) hnone, fun h => absurd h hnone⟩
      (.inr hnone)

end Devices

def twoDevices : Parameters := ⟨⟨4, 2, 64, 4096⟩, 0, 0, 2, 2, 16, fun _ => 0⟩

def granted (dev kmalloc : Nat) : Answers := ⟨0, dev, some kmalloc, fun _ => 0⟩

/-- The second `cdev_add` of `scull_init` fails. -/
def secondFails : LoadAnswers where
  main := { granted (MKDEV 240 0) 4096 with cdevAdd := fun i => if i = 1 then -Store.ENOMEM else 0 }
  created := true
  pipes := granted (MKDEV 241 0) 8192
  access := ⟨fun _ => 0, fun i => MKDEV (242 + i) 0, fun _ => 0⟩

/-- `scull_init` returns 0, and the first `cdev` stays registered in an array that has
been freed. -/
theorem failure_unreported :
    ¬ Reports .basic twoDevices secondFails ∧
      ∃ r held, (scullInit .basic twoDevices secondFails).Settles some 0 r held ∧ r.1 = 0 ∧
        .cdev 4096 0 ∈ held ∧ .array 4096 ∉ held := by
  have hfailed : Failed .basic twoDevices secondFails :=
    .inr (.inr (.inl ⟨1, by decide, by decide⟩))
  have hsettles : (scullInit .basic twoDevices secondFails).Settles some 0
      (0, ⟨240, 0, .dangling 4096⟩, none) {.cdev 4096 0} := ⟨rfl, by decide +kernel⟩
  refine ⟨?_, _, _, hsettles, rfl, by decide, by decide⟩
  rintro ⟨r, held, h, hreported, -⟩
  have hends := h.ends
  rw [hsettles.ends] at hends
  cases hends
  exact absurd (hreported.mpr hfailed) (by decide)

end MyDrivers.Load
