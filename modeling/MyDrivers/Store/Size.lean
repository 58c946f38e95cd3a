import MyDrivers.Store.Calls

/-! The size of a device and its high-water mark. `scull_write` adds the count
to `dev->size` wherever the bytes went, so the two agree exactly as long as
every write appends. -/
namespace MyDrivers.Store
open Lib Lib.Machine

def raise (mark : Int) (done : Call × Reply) : Int :=
  match done.1 with
  | .scullOpen fFlags => if fFlags &&& O_ACCMODE = O_WRONLY then 0 else mark
  | .scullWrite _ _ _ => if 0 < done.2.ret then max mark done.2.pos else mark
  | .scullRead _ _ _ => mark
  | .scullIoctl _ => mark

/-- The largest end position of a successful non-empty write since the last trim. -/
def highWater (labels : List (Call × Reply)) : Int := labels.foldl raise 0

/-- `rw_verify_area` lets no write end beyond the largest `loff_t`. -/
def Verified (_ : Session) (done : Call × Reply) : Prop :=
  match done.1 with
  | .scullWrite buff pos _ => pos + buff.length < 9223372036854775808
  | _ => True

/-- A write that completes with at least one byte starts at the device's size. -/
def Appends (s : Session) (done : Call × Reply) : Prop :=
  match done.1 with
  | .scullWrite buff pos env => ∀ addr, Completes s.globals s.dev buff pos env addr →
      0 < clamped s.dev addr buff → pos = s.dev.size
  | _ => True

@[simp] theorem highWater_nil : highWater [] = 0 := rfl

@[simp] theorem highWater_snoc (labels : List (Call × Reply)) (done : Call × Reply) :
    highWater (labels ++ [done]) = raise (highWater labels) done := by
  simp [highWater]

theorem highWater_nonneg (labels : List (Call × Reply)) : 0 ≤ highWater labels := by
  induction labels using List.reverseRecOn with
  | nil => exact le_refl _
  | append_singleton labels done ih =>
    rw [highWater_snoc]
    unfold raise
    split
    · split <;> omega
    · split <;> omega
    · exact ih
    · exact ih

theorem raised_iff {size pos : Int} {n : Nat} (hn : 0 < n) (hsize : 0 ≤ size)
    (hsizeLt : size < 9223372036854775808) (hpos : 0 ≤ pos)
    (hend : pos + n < 9223372036854775808) :
    int64 (size + n) = max size (int64 (pos + n)) ↔ pos = size := by
  rw [int64_eq_self (x := pos + n) (by omega) hend]
  by_cases hfits : size + n < 9223372036854775808
  · rw [int64_eq_self (by omega) hfits]
    omega
  · have hover := int64_overflow (x := size + n) (by omega) (by omega)
    omega

theorem step_highWater {labels : List (Call × Reply)} {s t : Session} {done : Call × Reply}
    (hsize : s.dev.size < 9223372036854775808) (hmark : s.dev.size = highWater labels)
    (hverified : Verified s done) (hstep : Step s done t) :
    t.dev.size = highWater (labels ++ [done]) ↔ Appends s done := by
  rw [highWater_snoc]
  have hlow : 0 ≤ s.dev.size := hmark ▸ highWater_nonneg labels
  have hoffered := hstep.1
  cases step_cases hstep with
  | trim fFlags reply flags => simp [raise, Appends, flags, trimmed]
  | enter fFlags reply flags => simpa [raise, Appends, flags] using hmark
  | read count pos env transfer returned =>
    have hdev := (scullRead_effect _ _ _ _ transfer returned).1
    have hsame : transfer.dev.size = s.dev.size := by rw [hdev]
    simpa [raise, Appends, hsame] using hmark
  | ioctl call reply => simpa [raise, Appends] using hmark
  | write buff pos env transfer returned =>
    simp only [raise, Appends, Verified, Call.Offered, ← hmark] at hverified hoffered ⊢
    cases (scullWrite_effect _ _ _ _ _ transfer returned).2 with
    | failed incomplete hret hsize' hpos =>
      rw [if_neg (by omega), hsize']
      exact ⟨fun _ addr h => absurd h (incomplete addr), fun _ => rfl⟩
    | completed addr completes hret hsize' hpos =>
      have hclamped : clamped s.dev addr buff ≤ buff.length := Nat.min_le_left _ _
      have hcount : int64 (clamped s.dev addr buff : Int) = clamped s.dev addr buff :=
        int64_eq_self (by omega) (by omega)
      rw [hret, hsize', hpos, hcount]
      by_cases hempty : clamped s.dev addr buff = 0
      · have hsame : int64 (s.dev.size + clamped s.dev addr buff) = s.dev.size := by
          rw [int64_eq_self (by omega) (by omega)]
          omega
        rw [if_neg (by omega), hsame]
        refine ⟨fun _ => ?_, fun _ => rfl⟩
        intro other hother hpositive
        rw [completes.unique hother] at hpositive
        omega
      · have hpositive : 0 < clamped s.dev addr buff := Nat.pos_of_ne_zero hempty
        rw [if_pos (by omega), raised_iff hpositive hlow hsize hoffered.1 (by omega)]
        constructor
        · intro h _ _ _
          exact h
        · intro h
          exact h addr completes hpositive

/-- The size is the high-water mark all along a run if and only if every write
of the run that completes with at least one byte appends. -/
theorem size_eq_highWater_iff (g : Globals) (type : ScullType) (order : Nat)
    {labels : List (Call × Reply)} {t : Session}
    (run : Run (While Verified Step) (.init g type order) labels t) :
    (∀ pre s, pre <+: labels → Run (While Verified Step) (.init g type order) pre s →
        s.dev.size = highWater pre) ↔
      Run (While Appends (While Verified Step)) (.init g type order) labels t := by
  refine Run.always_iff step_deterministic.guarded rfl ?_ run
  intro labels s l t earlier hmark hstep
  exact step_highWater (size_lt earlier.forget) hmark hstep.1 hstep.2

def storeByte (byte : Byte) : Call × Reply := (.scullWrite [byte] 0 .calm, ⟨1, 1, [byte]⟩)

def holding (byte : Byte) (size : Int) : Session :=
  ⟨⟨4, 2, 64, 4096⟩,
    [⟨0, some ⟨1, [some ⟨2, .kmalloc, [byte, 0, 0, 0]⟩, none]⟩⟩], 4, 2, size, 0, .basic⟩

def holdingTwo (first second : Byte) : Session :=
  ⟨⟨4, 2, 64, 4096⟩,
    [⟨0, some ⟨1, [some ⟨2, .kmalloc, [first, second, 0, 0]⟩, none]⟩⟩], 4, 2, 2, 0, .basic⟩

theorem store_first :
    While Verified Step (.init ⟨4, 2, 64, 4096⟩ .basic 0) (storeByte 7) (holding 7 1) :=
  ⟨by simp [Verified, storeByte], by simp [storeByte, Call.Offered], by decide +kernel⟩

theorem store_again : While Verified Step (holding 7 1) (storeByte 9) (holding 9 2) :=
  ⟨by simp [Verified, storeByte], by simp [storeByte, Call.Offered], by decide +kernel⟩

/-- Two files are open: a store, a read, an append; then a trim, and another store. -/
def twoHandles : List (Call × Reply) :=
  [(.scullOpen O_RDWR, ⟨0, 0, []⟩), storeByte 7, (.scullOpen O_RDWR, ⟨0, 0, []⟩),
    (.scullRead 5 0 .calm, ⟨1, 1, [7]⟩), (.scullWrite [8] 1 .calm, ⟨1, 2, [8]⟩),
    (.scullOpen O_WRONLY, ⟨0, 0, []⟩), storeByte 9]

theorem twoHandles_run : Run (While Appends (While Verified Step)) (.init ⟨4, 2, 64, 4096⟩ .basic 0)
    twoHandles (holding 9 1) := by
  have first : While Appends (While Verified Step) (.init ⟨4, 2, 64, 4096⟩ .basic 0)
      (.scullOpen O_RDWR, ⟨0, 0, []⟩) (.init ⟨4, 2, 64, 4096⟩ .basic 0) :=
    ⟨trivial, trivial, step_next (by decide +kernel)⟩
  have store : While Appends (While Verified Step) (.init ⟨4, 2, 64, 4096⟩ .basic 0)
      (storeByte 7) (holding 7 1) := ⟨fun _ _ _ => rfl, store_first⟩
  have second : While Appends (While Verified Step) (holding 7 1)
      (.scullOpen O_RDWR, ⟨0, 0, []⟩) (holding 7 1) :=
    ⟨trivial, trivial, step_next (by decide +kernel)⟩
  have read : While Appends (While Verified Step) (holding 7 1)
      (.scullRead 5 0 .calm, ⟨1, 1, [7]⟩) (holding 7 1) :=
    ⟨trivial, trivial, step_next (by decide +kernel)⟩
  have append : While Appends (While Verified Step) (holding 7 1)
      (.scullWrite [8] 1 .calm, ⟨1, 2, [8]⟩) (holdingTwo 7 8) :=
    ⟨fun _ _ _ => rfl, by simp [Verified], step_next (by decide +kernel)⟩
  have trim : While Appends (While Verified Step) (holdingTwo 7 8)
      (.scullOpen O_WRONLY, ⟨0, 0, []⟩) (.init ⟨4, 2, 64, 4096⟩ .basic 0) :=
    ⟨trivial, trivial, step_next (by decide +kernel)⟩
  have last : While Appends (While Verified Step) (.init ⟨4, 2, 64, 4096⟩ .basic 0)
      (storeByte 9) (holding 9 1) :=
    ⟨fun _ _ _ => rfl, by simp [Verified, storeByte], step_next (by decide +kernel)⟩
  exact .cons first (.cons store (.cons second (.cons read (.cons append (.cons trim (.single last))))))

theorem size_eq_highWater_first : (holding 9 1).dev.size = highWater twoHandles :=
  (size_eq_highWater_iff ⟨4, 2, 64, 4096⟩ .basic 0 twoHandles_run.forget).mpr twoHandles_run _ _
    (List.prefix_refl _) twoHandles_run.forget

theorem size_overwritten :
    ∃ t, Run (While Verified Step) (.init ⟨4, 2, 64, 4096⟩ .basic 0) [storeByte 7, storeByte 9] t ∧
      t.dev.size = 2 ∧ highWater [storeByte 7, storeByte 9] = 1 :=
  ⟨holding 9 2, (Run.single store_first).snoc store_again, rfl, by decide⟩

end MyDrivers.Store
