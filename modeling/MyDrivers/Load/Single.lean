import MyDrivers.Load.Init

/-! Loading and unloading the modules that have a single device: `globalmem`,
`completion` and `sleepy`. -/
namespace MyDrivers.Load
open Lib
open Store (Addr ENOMEM)

/-- What the kernel answers: the result of the region call, the major number that
`alloc_chrdev_region` chose, the memory from `kzalloc` and the result of `cdev_add`. -/
structure SingleAnswers where
  region : Int
  major : Nat
  kzalloc : Option Addr
  cdevAdd : Int

structure SingleVars where
  major : Nat
  devp : Pointer Unit

/-- `completion_setup_cdev`, `globalmem_setup_cdev` and the end of `sleepy_init`: a failure
is printed, and that is all. -/
def setupSingle (key : Resource) (err : Int) : Booking Unit :=
  if err ≠ 0 then pure () else acquire key

/-- The variable `devno` once the region call has returned. -/
def singleDevno (major : Nat) (answers : SingleAnswers) : Nat :=
  if major = 0 ∧ 0 ≤ answers.region then MKDEV answers.major 0 else MKDEV major 0

/-- `completion_init` and `globalmem_init`, with the major number the module is given. -/
def initSingle (major : Nat) (answers : SingleAnswers) : Booking (Int × SingleVars) :=
  let devno := singleDevno major answers
  let major := if major = 0 then MAJOR devno else major
  if answers.region < 0 then pure (answers.region, ⟨major, .null⟩)
  else do
    acquire (.region devno 1)
    match answers.kzalloc with
    | none => do
        release (.region devno 1)
        return (-ENOMEM, ⟨major, .null⟩)
    | some addr => do
        acquire (.array addr)
        setupSingle (.cdev addr 0) answers.cdevAdd
        return (0, ⟨major, .live addr ()⟩)

/-- `completion_exit` and `globalmem_exit`, which look at no pointer first. -/
def exitSingle (vars : SingleVars) : Booking Unit :=
  match vars.devp with
  | .live addr _ => do
      release (.cdev addr 0)
      release (.array addr)
      release (.region (MKDEV vars.major 0) 1)
  | _ => ⟨[], none⟩

def completionInit (answers : SingleAnswers) : Booking (Int × SingleVars) := initSingle 0 answers

def completionExit (vars : SingleVars) : Booking Unit := exitSingle vars

def globalmemInit (globalmemMajor : Nat) (answers : SingleAnswers) : Booking (Int × SingleVars) :=
  initSingle globalmemMajor answers

def globalmemExit (vars : SingleVars) : Booking Unit := exitSingle vars

/-- `cdev` is a variable of the module, at an address of its own. -/
def sleepyInit (cdev : Addr) (answers : SingleAnswers) : Booking (Int × SingleVars) :=
  if answers.region < 0 then pure (answers.region, ⟨0, .null⟩)
  else do
    let devno := MKDEV answers.major 0
    acquire (.region devno 1)
    setupSingle (.cdev cdev 0) answers.cdevAdd
    return (answers.region, ⟨MAJOR devno, .null⟩)

def sleepyExit (cdev : Addr) (vars : SingleVars) : Booking Unit := do
  release (.cdev cdev 0)
  release (.region (MKDEV vars.major 0) 1)

inductive Single where
  | completion
  | globalmem (globalmemMajor : Nat)
  | sleepy (cdev : Addr)

def Single.init (answers : SingleAnswers) : Single → Booking (Int × SingleVars)
  | .completion => completionInit answers
  | .globalmem globalmemMajor => globalmemInit globalmemMajor answers
  | .sleepy cdev => sleepyInit cdev answers

def Single.exit (vars : SingleVars) : Single → Booking Unit
  | .completion => completionExit vars
  | .globalmem _ => globalmemExit vars
  | .sleepy cdev => sleepyExit cdev vars

def Single.allocates : Single → Prop
  | .sleepy _ => False
  | _ => True

theorem major_mkdev (major : Nat) : MAJOR (MKDEV major 0) = major := by
  rw [MAJOR, MKDEV, Nat.or_zero, Nat.shiftLeft_shiftRight]

def Single.life (answers : SingleAnswers) (m : Single) : List (Entry Resource) :=
  match (m.init answers).result with
  | some (ret, vars) =>
      if ret < 0 then (m.init answers).trace
      else (m.init answers).trace ++ (m.exit vars).trace
  | none => (m.init answers).trace

/-- Either the module is loaded and holds `rest`, with the `cdev` if it was added, or it
has left nothing behind. -/
inductive Single.Loaded (answers : SingleAnswers) (m : Single) : Prop
  | loaded (ret : Int) (vars : SingleVars) (cdev : Addr) (rest : Multiset Resource)
      (granted : 0 ≤ ret ∧ 0 ≤ answers.region ∧ (m.allocates → answers.kzalloc ≠ none))
      (other : .cdev cdev 0 ∉ rest)
      (loads : (m.init answers).Settles some 0 (ret, vars)
        ((if answers.cdevAdd = 0 then {.cdev cdev 0} else 0) + rest))
      (unloads : (m.exit vars).Settles some (.cdev cdev 0 ::ₘ rest) () 0)
      (first : ∃ entries, (m.exit vars).trace = .release (.cdev cdev 0) :: entries)
  | failed (ret : Int) (vars : SingleVars)
      (refused : ret < 0 ∧ (answers.region < 0 ∨ m.allocates ∧ answers.kzalloc = none))
      (loads : (m.init answers).Settles some 0 (ret, vars) 0)

section Single
variable {answers : SingleAnswers}

theorem setupSingle_settles (key : Resource) (err : Int) (held : Multiset Resource) :
    (setupSingle key err).Settles some held () ((if err = 0 then {key} else 0) + held) := by
  unfold setupSingle
  by_cases herr : err = 0
  · rw [if_neg (not_not_intro herr), if_pos herr, Multiset.singleton_add]
    exact .acquire rfl
  · rw [if_pos herr, if_neg herr, zero_add]
    exact .pure ()

/-- The number that is unregistered is the one that was registered. -/
theorem singleDevno_eq (major : Nat) (answers : SingleAnswers) :
    MKDEV (if major = 0 then MAJOR (singleDevno major answers) else major) 0 =
      singleDevno major answers := by
  unfold singleDevno
  by_cases hmajor : major = 0
  · rw [if_pos hmajor]
    split <;> rw [major_mkdev]
  · rw [if_neg hmajor, if_neg fun h => hmajor h.1]

theorem initSingle_loaded {m : Single} (major : Nat) (hinit : m.init answers = initSingle major answers)
    (hexit : ∀ vars, m.exit vars = exitSingle vars) (allocates : m.allocates) : m.Loaded answers := by
  have hnumber := singleDevno_eq major answers
  generalize hchosen : (if major = 0 then MAJOR (singleDevno major answers) else major) = chosen
    at hnumber
  by_cases hregion : answers.region < 0
  · refine .failed answers.region ⟨chosen, .null⟩ ⟨hregion, .inl hregion⟩ ?_
    rw [hinit, initSingle, if_pos hregion, hchosen]
    exact .pure _
  · cases hmemory : answers.kzalloc with
    | none =>
      refine .failed (-ENOMEM) ⟨chosen, .null⟩ ⟨by decide, .inr ⟨allocates, hmemory⟩⟩ ?_
      rw [hinit, initSingle, if_neg hregion, hchosen]
      simp only [hmemory]
      exact .bind (.acquire rfl) (.bind (.release rfl) (.pure _))
    | some addr =>
      refine .loaded 0 ⟨chosen, .live addr ()⟩ addr
        {.array addr, .region (singleDevno major answers) 1}
        ⟨Int.le_refl 0, Int.not_lt.mp hregion, fun _ => by simp [hmemory]⟩ (by simp) ?_ ?_ ?_
      · rw [hinit, initSingle, if_neg hregion, hchosen]
        simp only [hmemory]
        exact .bind (.acquire rfl) (.bind (.acquire rfl)
          (.bind (setupSingle_settles _ _ _) (.pure _)))
      · rw [hexit]
        refine .bind (.release rfl) (.bind (.release rfl) ?_)
        rw [hnumber]
        exact .release rfl
      · rw [hexit]
        exact ⟨_, rfl⟩

theorem sleepy_loaded (cdev : Addr) : (Single.sleepy cdev).Loaded answers := by
  by_cases hregion : answers.region < 0
  · refine .failed answers.region ⟨0, .null⟩ ⟨hregion, .inl hregion⟩ ?_
    rw [Single.init, sleepyInit, if_pos hregion]
    exact .pure _
  · refine .loaded answers.region ⟨MAJOR (MKDEV answers.major 0), .null⟩ cdev
      {.region (MKDEV answers.major 0) 1}
      ⟨Int.not_lt.mp hregion, Int.not_lt.mp hregion, fun h => absurd h id⟩ (by simp) ?_ ?_ ⟨_, rfl⟩
    · rw [Single.init, sleepyInit, if_neg hregion]
      exact .bind (.acquire rfl) (.bind (setupSingle_settles _ _ _) (.pure _))
    · refine .bind (.release rfl) ?_
      rw [major_mkdev]
      exact .release rfl

theorem single_loaded (answers : SingleAnswers) (m : Single) : m.Loaded answers := by
  cases m with
  | completion => exact initSingle_loaded 0 rfl (fun _ => rfl) trivial
  | globalmem globalmemMajor => exact initSingle_loaded globalmemMajor rfl (fun _ => rfl) trivial
  | sleepy cdev => exact sleepy_loaded cdev

end Single

/-- Loading fails exactly when it gets no numbers or no memory, and leaves nothing behind
then; otherwise unloading releases what was acquired, each once, exactly when the `cdev`
was added. -/
theorem single_life (m : Single) (answers : SingleAnswers) :
    ∃ ret vars, (m.init answers).result = some (ret, vars) ∧
      (ret < 0 ↔ answers.region < 0 ∨ m.allocates ∧ answers.kzalloc = none) ∧
      (0 ≤ ret → (m.exit vars).result = some ()) ∧
      (settle 0 (m.life answers) = some 0 ↔ ret < 0 ∨ answers.cdevAdd = 0) := by
  cases single_loaded answers m with
  | loaded ret vars cdev rest granted other loads unloads first =>
    obtain ⟨hret, hregion, hmemory⟩ := granted
    have hfine : ¬ (answers.region < 0 ∨ m.allocates ∧ answers.kzalloc = none) := by
      rintro (h | ⟨hallocates, h⟩)
      · omega
      · exact hmemory hallocates h
    refine ⟨ret, vars, loads.ends, iff_of_false (by omega) hfine, fun _ => unloads.ends, ?_⟩
    have hlife : m.life answers = (m.init answers).trace ++ (m.exit vars).trace := by
      rw [Single.life, loads.ends]
      exact if_neg (by omega)
    have hinit := loads.settles
    rw [List.filterMap_some] at hinit
    rw [hlife, settle_append, hinit, Option.bind_some]
    by_cases hadd : answers.cdevAdd = 0
    · rw [if_pos hadd, Multiset.singleton_add]
      have hexit := unloads.settles
      rw [List.filterMap_some] at hexit
      exact iff_of_true hexit (.inr hadd)
    · obtain ⟨entries, hentries⟩ := first
      rw [if_neg hadd, zero_add, hentries, settle, if_neg other]
      refine iff_of_false (by simp) ?_
      rintro (h | h)
      · omega
      · exact hadd h
  | failed ret vars refused loads =>
    refine ⟨ret, vars, loads.ends, iff_of_true refused.1 refused.2, fun h => ?_, ?_⟩
    · have := refused.1
      omega
    · have hlife : m.life answers = (m.init answers).trace := by
        rw [Single.life, loads.ends]
        exact if_pos refused.1
      have hinit := loads.settles
      rw [List.filterMap_some] at hinit
      rw [hlife]
      exact iff_of_true hinit (.inl refused.1)

end MyDrivers.Load
