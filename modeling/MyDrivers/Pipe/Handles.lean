import Mathlib.Data.List.Count
import MyDrivers.Pipe.Sections

/-! The counters of readers and writers and the buffer they keep alive. The
kernel forgets a file whatever `release` returns, so a `release` that is
interrupted leaves its file in the counters for ever. -/
namespace MyDrivers.Pipe
open Lib Lib.Machine
open Store (Byte ERESTARTSYS)

variable {size : Nat}

def Session.readers (s : Session) : Nat := s.files.countP (·.read)

def Session.writers (s : Session) : Nat := s.files.countP (·.write)

/-- The addresses `kmalloc` gave out along a run, and those passed to `kfree`. -/
def allocs (labels : List (Section size × Reply)) : List Nat := labels.filterMap (·.2.alloc)

def frees (labels : List (Section size × Reply)) : List Nat := labels.filterMap (·.2.freed)

def owned (pointer : Nat) : List Nat := if pointer = 0 then [] else [pointer]

@[simp] theorem owned_null : owned 0 = [] := rfl

theorem owned_of_ne {pointer : Nat} (h : pointer ≠ 0) : owned pointer = [pointer] := if_neg h

def FMode.counted (mode : FMode) : Prop := mode.read = true ∨ mode.write = true

def Section.Closes : Section size → Prop
  | .scullPRelease mode _ => mode.counted
  | _ => False

def StartsEmpty (size : Nat) (s : Session) : Prop :=
  ∀ (mode : FMode) (interrupted : Bool) (kmalloc : Option (Fresh size)) (reply : Reply) (t : Session),
    Step s (.scullPOpen mode interrupted kmalloc, reply) t → reply.ret = some 0 →
      t.pipe.dev.buffer ≠ 0 ∧ t.pipe.dev.rp = t.pipe.dev.buffer ∧ t.pipe.dev.wp = t.pipe.dev.buffer

structure Booked (labels : List (Section size × Reply)) (s : Session) : Prop where
  readers : s.pipe.dev.nreaders = s.readers
  writers : s.pipe.dev.nwriters = s.writers
  live : 0 < s.readers + s.writers → s.pipe.dev.buffer ≠ 0
  balance : allocs labels = frees labels ++ owned s.pipe.dev.buffer
  closed : ∀ before done, labels = before ++ [done] → done.1.Closes →
    s.readers + s.writers = 0 → s.pipe.dev.buffer = 0 ∧ StartsEmpty size s

/-- The section leaves the counters within their type, and no `release` of a
reader or writer is interrupted. -/
def Counts (s : Session) (done : Section size × Reply) : Prop :=
  match done.1 with
  | .scullPOpen mode interrupted kmalloc =>
      interrupted = false → (s.pipe.dev.buffer ≠ 0 ∨ kmalloc.isSome) →
        (mode.read = true → s.pipe.dev.nreaders + 1 < 2147483648) ∧
        (mode.write = true → s.pipe.dev.nwriters + 1 < 2147483648)
  | .scullPRelease mode interrupted => mode.counted → interrupted = false
  | .scullPRead _ _ _ _ => True
  | .scullPWrite _ _ _ _ => True

section Counting
variable {labels : List (Section size × Reply)} {s t : Session}

theorem countP_open (p : FMode → Bool) (mode : FMode) (files : List FMode) :
    ((mode :: files).countP p : Int) = files.countP p + if p mode then 1 else 0 := by
  rw [List.countP_cons]
  split <;> simp

theorem countP_close (p : FMode → Bool) {mode : FMode} {files : List FMode}
    (member : mode ∈ files) :
    ((files.erase mode).countP p : Int) = files.countP p - if p mode then 1 else 0 := by
  rw [List.countP_erase]
  by_cases hmode : p mode = true
  · have hpos : 0 < files.countP p := List.countP_pos_iff.mpr ⟨mode, member, hmode⟩
    simp only [member, hmode, and_self, if_true]
    omega
  · simp [hmode]

theorem counter_open {b : Bool} {n : Nat} {x : Int} (hx : x = n) (hrange : x < 2147483648) :
    (if b then int32 (x + 1) else x) = n + (if b then 1 else 0) ↔
      (b = true → x + 1 < 2147483648) := by
  cases b with
  | false => simp [hx]
  | true =>
    simp only [if_true, forall_true_left]
    constructor
    · intro h
      have := int32_bounds (x + 1)
      omega
    · intro h
      rw [int32_eq_self (by omega) h]
      omega

theorem counter_close {b : Bool} {n : Nat} {x : Int} (hx : x = n) (hrange : x < 2147483648)
    (hpos : b = true → 0 < n) :
    (if b then int32 (x + -1) else x) = n - (if b then 1 else 0) := by
  cases b with
  | false => simp [hx]
  | true =>
    have := hpos rfl
    simp only [if_true]
    rw [int32_eq_self (by omega) (by omega)]
    omega

theorem range_count {dev : ScullPipe} (mode : FMode) (change : Int)
    (h : dev.nreaders < 2147483648 ∧ dev.nwriters < 2147483648) :
    (dev.count mode change).nreaders < 2147483648 ∧
      (dev.count mode change).nwriters < 2147483648 := by
  have hreaders := int32_bounds (dev.nreaders + change)
  have hwriters := int32_bounds (dev.nwriters + change)
  unfold ScullPipe.count
  constructor
  · simp only
    split <;> omega
  · simp only
    split <;> omega

theorem run_range {mem : Nat → Byte} (run : Run Step (.init size mem) labels s) :
    s.pipe.dev.nreaders < 2147483648 ∧ s.pipe.dev.nwriters < 2147483648 := by
  refine run.invariant (fun _ s => s.pipe.dev.nreaders < 2147483648 ∧
    s.pipe.dev.nwriters < 2147483648) ?_ ?_
  · exact ⟨by simp [Session.init, scullPInitDev], by simp [Session.init, scullPInitDev]⟩
  intro labels s done t _ hrange hstep
  cases step_cases hstep with
  | refused sec reply open? failed idle => exact hrange
  | allocated mode fresh empty => exact range_count mode 1 hrange
  | opened mode kmalloc live => exact range_count mode 1 hrange
  | lost mode member => exact hrange
  | freed mode member dev counted last => exact counted ▸ range_count mode (-1) hrange
  | released mode member dev counted more => exact counted ▸ range_count mode (-1) hrange
  | read fFlags count accessible n file data taken => exact hrange
  | writeFault fFlags buff accessible file space short => exact hrange
  | wrote fFlags buff accessible n file space taken => exact hrange

theorem open_succeeds {mode : FMode} {interrupted : Bool} {kmalloc : Option (Fresh size)}
    (taken : interrupted = false) (memory : s.pipe.dev.buffer ≠ 0 ∨ kmalloc.isSome) :
    ((Section.scullPOpen mode interrupted kmalloc).run s).1.ret = some 0 := by
  subst taken
  simp only [Section.run, Pipe.scullPOpen, scullPOpenLocked, Bool.false_eq_true, if_false]
  by_cases hbuffer : s.pipe.dev.buffer = 0
  · rw [if_pos hbuffer]
    cases kmalloc with
    | none => simp [hbuffer] at memory
    | some fresh => rfl
  · rw [if_neg hbuffer]
    rfl

theorem starts_empty (hbuffer : s.pipe.dev.buffer = 0) : StartsEmpty size s := by
  intro mode interrupted kmalloc reply t hstep hret
  cases step_cases hstep with
  | refused sec reply open? failed idle =>
    have := failed 0 hret
    omega
  | allocated mode fresh empty => exact ⟨Nat.ne_of_gt fresh.nonnull, rfl, rfl⟩
  | opened mode kmalloc live => exact absurd hbuffer live

/-! ## The buffer -/

@[simp] theorem allocs_snoc (labels : List (Section size × Reply)) (done : Section size × Reply) :
    allocs (labels ++ [done]) = allocs labels ++ done.2.alloc.toList := by
  cases h : done.2.alloc <;> simp [allocs, h]

@[simp] theorem frees_snoc (labels : List (Section size × Reply)) (done : Section size × Reply) :
    frees (labels ++ [done]) = frees labels ++ done.2.freed.toList := by
  cases h : done.2.freed <;> simp [frees, h]

theorem step_balance {done : Section size × Reply} (hstep : Step s done t)
    (balance : allocs labels = frees labels ++ owned s.pipe.dev.buffer) :
    allocs (labels ++ [done]) = frees (labels ++ [done]) ++ owned t.pipe.dev.buffer := by
  rw [allocs_snoc, frees_snoc, balance]
  cases step_cases hstep with
  | refused sec reply open? failed idle => simp [idle]
  | allocated mode fresh empty =>
    have hnonnull : fresh.addr ≠ 0 := Nat.ne_of_gt fresh.nonnull
    simp [empty, Reply.returns, ScullPipe.allocated, owned_of_ne hnonnull]
  | opened mode kmalloc live => simp [Reply.returns]
  | lost mode member => simp [Reply.returns]
  | freed mode member dev counted last =>
    subst counted
    by_cases hbuffer : s.pipe.dev.buffer = 0
    · simp [Reply.returns, hbuffer]
    · simp [Reply.returns, hbuffer, owned_of_ne hbuffer]
  | released mode member dev counted more =>
    subst counted
    simp [Reply.returns]
  | read fFlags count accessible n file data taken => simp [Reply.returns]
  | writeFault fFlags buff accessible file space short => simp [Reply.returns]
  | wrote fFlags buff accessible n file space taken => simp [Reply.returns]

/-! ## One step -/

theorem closes_releases {sec : Section size} (h : sec.Closes) : sec.Releases := by
  cases sec with
  | scullPRelease mode interrupted => trivial
  | scullPOpen mode interrupted kmalloc => exact h
  | scullPRead fFlags count interrupted accessible => exact h
  | scullPWrite fFlags buff interrupted accessible => exact h

theorem last_label {before : List (Section size × Reply)} {done last : Section size × Reply}
    (h : labels ++ [done] = before ++ [last]) : done = last := by
  obtain ⟨-, hlast⟩ := List.append_inj' h rfl
  exact List.singleton_inj.mp hlast

theorem booked_quiet (booked : Booked labels s) {done : Section size × Reply}
    (hstep : Step s done t) (hfiles : t.files = s.files)
    (hreaders : t.pipe.dev.nreaders = s.pipe.dev.nreaders)
    (hwriters : t.pipe.dev.nwriters = s.pipe.dev.nwriters)
    (hbuffer : t.pipe.dev.buffer = s.pipe.dev.buffer) (open? : ¬ done.1.Releases) :
    Booked (labels ++ [done]) t := by
  have hr : t.readers = s.readers := by rw [Session.readers, hfiles, Session.readers]
  have hw : t.writers = s.writers := by rw [Session.writers, hfiles, Session.writers]
  refine ⟨?_, ?_, ?_, step_balance hstep booked.balance, ?_⟩
  · rw [hreaders, hr, booked.readers]
  · rw [hwriters, hw, booked.writers]
  · rw [hr, hw, hbuffer]
    exact booked.live
  · intro before last hlabels hcloses
    exact absurd (closes_releases hcloses) (last_label hlabels ▸ open?)

theorem booked_open (booked : Booked labels s) (range : s.pipe.dev.nreaders < 2147483648 ∧
      s.pipe.dev.nwriters < 2147483648) {mode : FMode} {kmalloc : Option (Fresh size)}
    {reply : Reply} (hstep : Step s (.scullPOpen mode false kmalloc, reply) t)
    (hfiles : t.files = mode :: s.files) (live : t.pipe.dev.buffer ≠ 0)
    (hreaders : t.pipe.dev.nreaders =
      if mode.read then int32 (s.pipe.dev.nreaders + 1) else s.pipe.dev.nreaders)
    (hwriters : t.pipe.dev.nwriters =
      if mode.write then int32 (s.pipe.dev.nwriters + 1) else s.pipe.dev.nwriters) :
    Booked (labels ++ [(.scullPOpen mode false kmalloc, reply)]) t ↔
      (mode.read = true → s.pipe.dev.nreaders + 1 < 2147483648) ∧
        (mode.write = true → s.pipe.dev.nwriters + 1 < 2147483648) := by
  have hr : (t.readers : Int) = s.readers + if mode.read then 1 else 0 := by
    rw [Session.readers, hfiles]
    exact countP_open (·.read) mode s.files
  have hw : (t.writers : Int) = s.writers + if mode.write then 1 else 0 := by
    rw [Session.writers, hfiles]
    exact countP_open (·.write) mode s.files
  have hread := counter_open (b := mode.read) booked.readers range.1
  have hwrite := counter_open (b := mode.write) booked.writers range.2
  rw [← hreaders, ← hr] at hread
  rw [← hwriters, ← hw] at hwrite
  constructor
  · intro h
    exact ⟨hread.mp h.readers, hwrite.mp h.writers⟩
  · intro h
    refine ⟨hread.mpr h.1, hwrite.mpr h.2, fun _ => live, step_balance hstep booked.balance, ?_⟩
    intro before last hlabels hcloses
    exact absurd (closes_releases hcloses) (last_label hlabels ▸ fun h => h)

theorem files_close {mode : FMode} (member : mode ∈ s.files)
    (hfiles : t.files = s.files.erase mode) :
    (t.readers : Int) = s.readers - (if mode.read then 1 else 0) ∧
      (t.writers : Int) = s.writers - (if mode.write then 1 else 0) := by
  unfold Session.readers Session.writers
  rw [hfiles]
  exact ⟨countP_close (·.read) member, countP_close (·.write) member⟩

theorem counters_close (booked : Booked labels s) (range : s.pipe.dev.nreaders < 2147483648 ∧
      s.pipe.dev.nwriters < 2147483648) {mode : FMode} (member : mode ∈ s.files)
    (hfiles : t.files = s.files.erase mode) :
    (s.pipe.dev.count mode (-1)).nreaders = t.readers ∧
      (s.pipe.dev.count mode (-1)).nwriters = t.writers := by
  obtain ⟨hr, hw⟩ := files_close member hfiles
  constructor
  · rw [hr]
    apply counter_close booked.readers range.1
    intro hmode
    exact List.countP_pos_iff.mpr ⟨mode, member, hmode⟩
  · rw [hw]
    apply counter_close booked.writers range.2
    intro hmode
    exact List.countP_pos_iff.mpr ⟨mode, member, hmode⟩

theorem booked_lost (booked : Booked labels s) {mode : FMode} (member : mode ∈ s.files)
    (hstep : @Step size s (.scullPRelease mode true, .returns (-ERESTARTSYS)) t)
    (hfiles : t.files = s.files.erase mode) (hpipe : t.pipe = s.pipe) :
    Booked (labels ++ [(.scullPRelease mode true, .returns (-ERESTARTSYS))]) t ↔
      ¬ mode.counted := by
  obtain ⟨hr, hw⟩ := files_close member hfiles
  constructor
  · intro h hcounted
    have hreaders := h.readers
    have hwriters := h.writers
    rw [hpipe, booked.readers] at hreaders
    rw [hpipe, booked.writers] at hwriters
    rcases hcounted with hmode | hmode
    · rw [hmode, if_pos rfl] at hr
      omega
    · rw [hmode, if_pos rfl] at hw
      omega
  · intro hnot
    have hread : mode.read = false := Bool.eq_false_iff.mpr fun h => hnot (.inl h)
    have hwrite : mode.write = false := Bool.eq_false_iff.mpr fun h => hnot (.inr h)
    rw [hread] at hr
    rw [hwrite] at hw
    simp only [Bool.false_eq_true, if_false, Int.sub_zero] at hr hw
    refine ⟨?_, ?_, ?_, step_balance hstep booked.balance, ?_⟩
    · rw [hpipe, hr, booked.readers]
    · rw [hpipe, hw, booked.writers]
    · intro hpos
      rw [hpipe]
      exact booked.live (by omega)
    · intro before last hlabels hcloses
      cases last_label hlabels
      exact absurd hcloses hnot

theorem booked_released (booked : Booked labels s) (range : s.pipe.dev.nreaders < 2147483648 ∧
      s.pipe.dev.nwriters < 2147483648) {mode : FMode} (member : mode ∈ s.files)
    {done : Section size × Reply} (hstep : Step s done t) (hfiles : t.files = s.files.erase mode)
    (hpipe : t.pipe = ⟨s.pipe.dev.count mode (-1), s.pipe.mem⟩)
    (more : int32 ((s.pipe.dev.count mode (-1)).nreaders +
      (s.pipe.dev.count mode (-1)).nwriters) ≠ 0) :
    Booked (labels ++ [done]) t := by
  obtain ⟨hreaders, hwriters⟩ := counters_close booked range member hfiles
  obtain ⟨hr, hw⟩ := files_close member hfiles
  rw [hreaders, hwriters] at more
  refine ⟨?_, ?_, ?_, step_balance hstep booked.balance, ?_⟩
  · rw [hpipe, hreaders]
  · rw [hpipe, hwriters]
  · intro hpos
    rw [hpipe]
    refine booked.live ?_
    split at hr <;> split at hw <;> omega
  · intro before last _ _ hnone
    have hsum : (t.readers : Int) + t.writers = 0 := by omega
    rw [hsum, int32_zero] at more
    exact absurd rfl more

theorem booked_freed (booked : Booked labels s) (range : s.pipe.dev.nreaders < 2147483648 ∧
      s.pipe.dev.nwriters < 2147483648) {mode : FMode} (member : mode ∈ s.files)
    {done : Section size × Reply} (hstep : Step s done t) (hfiles : t.files = s.files.erase mode)
    (hpipe : t.pipe = ⟨{ s.pipe.dev.count mode (-1) with buffer := 0 }, s.pipe.mem⟩)
    (last : int32 ((s.pipe.dev.count mode (-1)).nreaders +
      (s.pipe.dev.count mode (-1)).nwriters) = 0) :
    Booked (labels ++ [done]) t := by
  obtain ⟨hreaders, hwriters⟩ := counters_close booked range member hfiles
  have hrange := range_count mode (-1) range
  have hbuffer : t.pipe.dev.buffer = 0 := by rw [hpipe]
  rw [hreaders, hwriters] at last hrange
  -- two counters of type `int` cannot add up to `2 ^ 32`
  rw [int32_eq_zero_iff] at last
  refine ⟨?_, ?_, ?_, step_balance hstep booked.balance, fun _ _ _ _ _ => ?_⟩
  · rw [hpipe]
    exact hreaders
  · rw [hpipe]
    exact hwriters
  · intro hpos
    omega
  · exact ⟨hbuffer, starts_empty hbuffer⟩

theorem counts_refused {sec : Section size} {reply : Reply} (hstep : Step s (sec, reply) t)
    (open? : ¬ sec.Releases) (failed : ∀ ret, reply.ret = some ret → ret < 0) :
    Counts s (sec, reply) := by
  cases sec with
  | scullPOpen mode interrupted kmalloc =>
    intro taken memory
    have hrun : (Section.scullPOpen mode interrupted kmalloc).run s = (reply, t) := hstep.2
    have hopen : ((Section.scullPOpen mode interrupted kmalloc).run s).1.ret = some 0 :=
      open_succeeds taken memory
    rw [hrun] at hopen
    have := failed 0 hopen
    omega
  | scullPRelease mode interrupted => exact absurd trivial open?
  | scullPRead fFlags count interrupted accessible => trivial
  | scullPWrite fFlags buff interrupted accessible => trivial

theorem step_booked (booked : Booked labels s) (range : s.pipe.dev.nreaders < 2147483648 ∧
      s.pipe.dev.nwriters < 2147483648) {done : Section size × Reply} (hstep : Step s done t) :
    Booked (labels ++ [done]) t ↔ Counts s done := by
  cases step_cases hstep with
  | refused sec reply open? failed idle =>
    exact iff_of_true (booked_quiet booked hstep rfl rfl rfl rfl open?)
      (counts_refused hstep open? failed)
  | allocated mode fresh empty =>
    have hopen := booked_open booked range hstep rfl (Nat.ne_of_gt fresh.nonnull) rfl rfl
    exact hopen.trans ⟨fun h _ _ => h, fun h => h rfl (.inr rfl)⟩
  | opened mode kmalloc live =>
    have hopen := booked_open booked range hstep rfl live rfl rfl
    exact hopen.trans ⟨fun h _ _ => h, fun h => h rfl (.inl live)⟩
  | lost mode member =>
    have hlost := booked_lost booked member hstep rfl rfl
    refine hlost.trans ⟨fun hnot hcounted => absurd hcounted hnot, fun h hcounted => ?_⟩
    exact absurd (h hcounted) (by decide)
  | freed mode member dev counted last =>
    subst counted
    exact iff_of_true (booked_freed booked range member hstep rfl rfl last) fun _ => rfl
  | released mode member dev counted more =>
    subst counted
    exact iff_of_true (booked_released booked range member hstep rfl rfl more) fun _ => rfl
  | read fFlags count accessible n file data taken =>
    exact iff_of_true (booked_quiet booked hstep rfl rfl rfl rfl fun h => h) trivial
  | writeFault fFlags buff accessible file space short =>
    exact iff_of_true (booked_quiet booked hstep rfl rfl rfl rfl fun h => h) trivial
  | wrote fFlags buff accessible n file space taken =>
    exact iff_of_true (booked_quiet booked hstep rfl rfl rfl rfl fun h => h) trivial

/-- The books are right all along a run if and only if every `release` of a
reader or writer in it gets the semaphore and no counter leaves its type. -/
theorem booked_iff {mem : Nat → Byte} (run : Run Step (.init size mem) labels t) :
    (∀ pre s, pre <+: labels → Run Step (.init size mem) pre s → Booked pre s) ↔
      Run (While Counts Step) (.init size mem) labels t := by
  have initial : @Booked size [] (.init size mem) := by
    refine ⟨rfl, rfl, fun h => ?_, rfl, ?_⟩
    · simp [Session.readers, Session.writers, Session.init] at h
    · intro before done hlabels
      simp at hlabels
  refine Run.always_iff step_deterministic initial ?_ run
  intro labels s done t earlier booked hstep
  exact step_booked booked (run_range earlier) hstep

end Counting

instance (mode : FMode) : Decidable mode.counted :=
  inferInstanceAs (Decidable (mode.read = true ∨ mode.write = true))

instance (s : Session) : (done : Section size × Reply) → Decidable (Counts s done)
  | (.scullPOpen mode interrupted kmalloc, _) => inferInstanceAs (Decidable
      (interrupted = false → (s.pipe.dev.buffer ≠ 0 ∨ kmalloc.isSome) →
        (mode.read = true → s.pipe.dev.nreaders + 1 < 2147483648) ∧
        (mode.write = true → s.pipe.dev.nwriters + 1 < 2147483648)))
  | (.scullPRelease mode interrupted, _) => inferInstanceAs
      (Decidable (mode.counted → interrupted = false))
  | (.scullPRead _ _ _ _, _) => .isTrue trivial
  | (.scullPWrite _ _ _ _, _) => .isTrue trivial

def Session.next (s : Session) (done : Section size × Reply) : Option Session :=
  if done.1.Offered s ∧ (done.1.run s).1 = done.2 then some (done.1.run s).2 else none

theorem step_next {s t : Session} {done : Section size × Reply} (h : s.next done = some t) :
    Step s done t := by
  unfold Session.next at h
  split at h
  · next hdone =>
    cases h
    exact ⟨hdone.1, Prod.ext hdone.2 rfl⟩
  · cases h

def openReader : Section 4 := .scullPOpen ⟨true, false⟩ false (some freshFour)

def reading : Session := (openReader.run (.init 4 fun _ => 0)).2

theorem open_reader :
    Step (.init 4 fun _ => 0) (openReader, (openReader.run (.init 4 fun _ => 0)).1) reading :=
  step_run trivial

def reopened : List (Section 4 × Reply) :=
  [(openReader, ⟨some 0, [], some 16, none⟩),
    (.scullPOpen ⟨false, true⟩ false none, ⟨some 0, [], none, none⟩),
    (.scullPWrite 0 [1, 2, 3, 4, 5] false 8, ⟨some 3, [], none, none⟩),
    (.scullPRead 0 2 false 8, ⟨some 2, [1, 2], none, none⟩),
    (.scullPRelease ⟨true, false⟩ false, ⟨some 0, [], none, none⟩),
    (.scullPRelease ⟨false, true⟩ false, ⟨some 0, [], none, some 16⟩),
    (openReader, ⟨some 0, [], some 16, none⟩)]

theorem booked_reader : ∃ t, Run Step (.init 4 fun _ => 0) reopened t ∧ t.readers = 1 ∧
    t.pipe.dev.buffer = 16 ∧ Booked reopened t := by
  have possible : ((reopened.foldlM (fun s done => if Counts s done then Session.next s done else none)
      (.init 4 fun _ => 0)).any fun t => t.readers = 1 ∧ t.pipe.dev.buffer = 16) = true := by
    decide +kernel
  obtain ⟨t, ht, hnext⟩ := Run.of_any possible
  obtain ⟨hreaders, hbuffer⟩ := of_decide_eq_true ht
  have run : Run (While Counts Step) (.init 4 fun _ => 0) reopened t :=
    hnext.checked.mono fun _ _ _ h => ⟨h.1, step_next h.2⟩
  exact ⟨t, run.forget, hreaders, hbuffer,
    (booked_iff run.forget).mpr run _ _ (List.prefix_refl _) run.forget⟩


def closeReader : Section 4 := .scullPRelease ⟨true, false⟩ true

/-- The only reader closes its file, and its `release` is interrupted. -/
theorem reader_lost :
    ∃ t, Run Step (.init 4 fun _ => 0)
        [(openReader, ⟨some 0, [], some 16, none⟩), (closeReader, .returns (-ERESTARTSYS))] t ∧
      t.readers = 0 ∧ t.pipe.dev.nreaders = 1 ∧ t.pipe.dev.buffer = 16 :=
  ⟨(closeReader.run reading).2, (Run.single open_reader).snoc (step_run (by decide +kernel)),
    by decide +kernel⟩

end MyDrivers.Pipe
