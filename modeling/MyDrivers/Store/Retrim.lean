import MyDrivers.Store.Interleaved

/-! Trims between a snapshot and its locked part. The locked part takes indices
and lengths from the snapshot but sizes its block by the device, so it stays
inside its objects when the device has not become smaller meanwhile. -/
namespace MyDrivers.Store
open Lib Lib.Machine

def SoundIoctl (s : Shared) : Move → Prop
  | .ioctl call _ =>
      let g := (scullIoctl s.globals call).globals
      Sound g.scullQuantum g.scullQsetN
  | _ => True

/-- The device still has room for the snapshot. A read that is interrupted or at
the end of the file needs none. -/
def Roomy (dev : ScullDev) (env : Env) : Pending → Prop
  | .write _ _ snap =>
      env.interrupted = true ∨ snap.qset = dev.qset ∧ snap.quantum ≤ dev.quantum
  | .read _ pos snap =>
      env.interrupted = true ∨ dev.size ≤ pos ∨
        snap.qset ≤ dev.qset ∧ snap.quantum ≤ dev.quantum

def RunsRoomy (s : Shared) : Move → Prop
  | .locked id _ env _ => ∀ p, s.pending id = some p → Roomy s.dev env p
  | _ => True

def Pending.SoundSettings : Pending → Prop
  | .write _ _ snap => Sound snap.quantum snap.qset
  | .read _ _ snap => Sound snap.quantum snap.qset

structure Trimmable (s : Shared) : Prop where
  basic : s.dev.type = .basic
  globals : Sound s.globals.scullQuantum s.globals.scullQsetN
  dev : Sound s.dev.quantum s.dev.qset
  shaped : Shaped s.dev.quantum.toNat s.dev.qset.toNat s.dev.data
  offers : Offers s
  pending : ∀ id p, s.pending id = some p → p.SoundSettings

theorem locked_roomy {s : Shared} (h : Trimmable s) {id : Nat} {p : Pending}
    (waiting : s.pending id = some p) {env : Env} (hroomy : Roomy s.dev env p) :
    (p.locked s.globals s.dev env).Safe (Within s.dev.quantum s.dev.qset) fun t =>
      t.dev = { s.dev with data := t.dev.data, size := t.dev.size } ∧
        Shaped s.dev.quantum.toNat s.dev.qset.toNat t.dev.data := by
  have hpos := (h.offers id p waiting).1
  have hsettings := h.pending id p waiting
  have hshaped := h.shaped
  obtain ⟨room, qset, hroom, hqset, hroomNat, hqsetNat, hsound⟩ := h.dev.toNat
  have hdivides := hsound.divides
  rw [hroomNat, hqsetNat] at hshaped ⊢
  rw [hroom, hqset]
  cases p with
  | write buff pos snap =>
    simp only [Pending.locked]
    obtain ⟨quantum, rows, hquantum, hrows, -, -, hsnap⟩ := Sound.toNat hsettings
    by_cases hrun : env.interrupted = true
    · rw [scullWriteLocked, if_pos hrun]
      exact .pure ⟨rfl, hshaped⟩
    · obtain ⟨hsame, hle⟩ := hroomy.resolve_left hrun
      have hrowsEq : rows = qset := by omega
      subst hrowsEq
      have haddress := address_located room rows hsnap.divides hpos
      rw [Int.mul_comm] at haddress
      obtain ⟨snapQset, snapQuantum⟩ := snap
      simp only at hquantum hrows hle
      subst hquantum hrows
      have hfits : room ≤ blockSize s.globals s.dev := by
        rw [blockSize, h.basic, hroom, uint64_natCast (by have := hdivides.2.1; omega)]
      refine (scullWriteLocked_safe hdivides.2.1 hdivides.2.2.2.1 (by omega) hroom hshaped hfits
        (Bool.eq_false_iff.mpr hrun) (fun addr h => h.1) haddress).mono ?_
      rintro t ⟨addr, -, hwritten⟩
      exact ⟨hwritten.geometry, hwritten.shaped⟩
  | read count pos snap =>
    simp only [Pending.locked]
    obtain ⟨quantum, rows, hquantum, hrows, -, -, hsnap⟩ := Sound.toNat hsettings
    by_cases hrun : env.interrupted = true
    · rw [scullReadLocked, if_pos hrun]
      exact .pure ⟨rfl, hshaped⟩
    · by_cases hend : pos ≥ s.dev.size
      · rw [scullReadLocked, if_neg hrun, if_pos hend]
        exact .pure ⟨rfl, hshaped⟩
      · obtain ⟨hlessRows, hle⟩ := (hroomy.resolve_left hrun).resolve_left hend
        obtain ⟨snapQuantum, snapQset, left⟩ := snap
        simp only at hquantum hrows hle hlessRows
        subst hquantum hrows
        refine (scullReadLocked_safe hdivides.2.1 (by omega) (by omega) hshaped
          (Bool.eq_false_iff.mpr hrun) (show pos < s.dev.size by omega) (fun addr h => h.1)
          (address_located room qset hsnap.divides hpos)).mono ?_
        rintro t ⟨addr, -, hread⟩
        have hgeometry := hread.geometry
        have hsize : t.dev.size = s.dev.size := by rw [hgeometry]
        refine ⟨?_, hread.extended.shaped hshaped⟩
        rw [hsize]
        exact hgeometry

theorem trimmable_init {g : Globals} (hsound : Sound g.scullQuantum g.scullQsetN) :
    Trimmable (.init g .basic 0) where
  basic := rfl
  globals := hsound
  dev := hsound
  shaped := shaped_nil _ _
  offers := fun _ _ h => by simp [Shared.init] at h
  pending := fun _ _ h => by simp [Shared.init] at h

theorem snapshot_sound {dev : ScullDev} (h : Sound dev.quantum dev.qset) (request : Request) :
    (request.snapshot dev).SoundSettings := by
  cases request <;> exact h

theorem trimmable_moves {s t : Shared} {m : Move} (h : Trimmable s)
    (hioctl : SoundIoctl s m) (hroomy : RunsRoomy s m) (hmove : Moves s m t) : Trimmable t := by
  have hoffers := offers_moves h.offers hmove
  cases hmove with
  | snapshot id request idle offered =>
    refine ⟨h.basic, h.globals, h.dev, h.shaped, hoffers, fun other p hp => ?_⟩
    by_cases hother : other = id
    · subst hother
      simp only [Function.update_self, Option.some.injEq] at hp
      exact hp ▸ snapshot_sound h.dev request
    · exact h.pending other p (by simpa [Function.update_of_ne hother] using hp)
  | locked id p env t waiting returned =>
    obtain ⟨hgeometry, hshaped⟩ := (locked_roomy h waiting (hroomy p waiting)).returns t returned
    have htype : t.dev.type = .basic := by rw [hgeometry]; exact h.basic
    have hquantum : t.dev.quantum = s.dev.quantum := by rw [hgeometry]
    have hqset : t.dev.qset = s.dev.qset := by rw [hgeometry]
    refine ⟨htype, h.globals, ?_, ?_, hoffers, fun other q hq => ?_⟩
    · simp only [hquantum, hqset]
      exact h.dev
    · simp only [hquantum, hqset]
      exact hshaped
    · by_cases hother : other = id
      · subst hother
        simp at hq
      · exact h.pending other q (by simpa [Function.update_of_ne hother] using hq)
  | opened fFlags dev returned =>
    unfold scullOpen at returned
    split at returned
    · cases scullTrim_returns _ _ dev returned
      exact ⟨h.basic, h.globals, h.globals, shaped_nil _ _, hoffers, h.pending⟩
    · cases returned
      exact ⟨h.basic, h.globals, h.dev, h.shaped, hoffers, h.pending⟩
  | ioctl call => exact ⟨h.basic, hioctl, h.dev, h.shaped, hoffers, h.pending⟩

/-- In a run of the module `scull` whose ioctls store sound settings and whose
locked parts all find room for their snapshots, every locked part that can come
next and finds room accesses nothing outside the objects it touches. -/
theorem locked_allowed {g : Globals} (hsound : Sound g.scullQuantum g.scullQsetN)
    {labels : List Move} {s : Shared}
    (run : Run (While RunsRoomy (While SoundIoctl Moves)) (.init g .basic 0) labels s)
    {id : Nat} {p : Pending} (waiting : s.pending id = some p) {env : Env}
    (hroomy : Roomy s.dev env p) :
    (∀ e ∈ (p.locked s.globals s.dev env).trace, e.allowed = true) ∧
      ∃ t, (p.locked s.globals s.dev env).result = some t := by
  have htrimmable : Trimmable s := run.invariant (fun _ s => Trimmable s)
    (trimmable_init hsound) fun _ _ _ _ _ h hstep =>
      trimmable_moves h hstep.2.1 hstep.1 hstep.2.2
  have hsafe := locked_roomy htrimmable waiting hroomy
  obtain ⟨t, ht, -⟩ := hsafe.ends
  exact ⟨fun e he => (hsafe.events e he).allowed, t, ht⟩

def tinyWaiting : Nat → Option Pending := Function.update tiny.pending 0 (some tinyWrite)

theorem tiny_waiting : tinyWaiting 0 = some tinyWrite := Function.update_self ..

theorem tiny_snapshot : Moves tiny (.snapshot 0 (.write [1, 2, 3] 0))
    ⟨tiny.globals, tiny.dev, tinyWaiting⟩ :=
  .snapshot 0 (.write [1, 2, 3] 0) rfl (by decide)

def tell (quantum : Nat) : IoctlCall := ⟨SCULL_IOCTQUANTUM, quantum, true, true, none, true⟩

/-- The settings change, and the device is trimmed, before the write gets the semaphore. -/
def retrimmed (quantum : Nat) : List Move :=
  [.snapshot 0 (.write [1, 2, 3] 0), .ioctl (tell quantum) ⟨0, 0, []⟩, .opened O_WRONLY]

def resized (quantum : Nat) : Shared :=
  ⟨⟨quantum, 2, 64, 4096⟩, ⟨[], quantum, 2, 0, 0, .basic⟩, tinyWaiting⟩

theorem retrimmed_run {quantum : Nat} (hsound : Sound quantum 2)
    (told : scullIoctl tiny.globals (tell quantum) = ⟨0, (resized quantum).globals, none⟩)
    (opened : (scullOpen (resized quantum).globals tiny.dev O_WRONLY).result =
      some (resized quantum).dev) :
    Run (While RunsRoomy (While SoundIoctl Moves)) tiny (retrimmed quantum) (resized quantum) := by
  have sound : SoundIoctl ⟨tiny.globals, tiny.dev, tinyWaiting⟩ (.ioctl (tell quantum) ⟨0, 0, []⟩) := by
    simp only [SoundIoctl, told]
    exact hsound
  have told' := Moves.ioctl (s := ⟨tiny.globals, tiny.dev, tinyWaiting⟩) (tell quantum)
  simp only [told] at told'
  exact ((Run.single ⟨trivial, trivial, tiny_snapshot⟩).snoc ⟨trivial, sound, told'⟩).snoc
    ⟨trivial, trivial, .opened O_WRONLY _ opened⟩

theorem locked_allowed_write :
    Run (While RunsRoomy (While SoundIoctl Moves)) tiny (retrimmed 6) (resized 6) ∧
      (∀ e ∈ (tinyWrite.locked (resized 6).globals (resized 6).dev .calm).trace, e.allowed = true) ∧
      ∃ t, (tinyWrite.locked (resized 6).globals (resized 6).dev .calm).result = some t := by
  have run : Run (While RunsRoomy (While SoundIoctl Moves)) tiny (retrimmed 6) (resized 6) :=
    retrimmed_run (by decide) (by decide +kernel) (by decide +kernel)
  have waiting : (resized 6).pending 0 = some tinyWrite := tiny_waiting
  exact ⟨run, locked_allowed (g := ⟨4, 2, 64, 4096⟩) (by decide) run waiting
    (.inr ⟨rfl, by decide⟩)⟩

theorem retrimmed_overflow :
    ∃ s p, Run (While SoundIoctl Moves) tiny
        [.snapshot 0 (.write [1, 2, 3] 0), .ioctl (tell 1) ⟨0, 0, []⟩, .opened O_WRONLY] s ∧
      s.pending 0 = some p ∧
      .bytes 0 4 1 ∈ (p.locked s.globals s.dev .calm).trace ∧
      (Event.bytes 0 4 1).allowed = false := by
  have run := @retrimmed_run 1 (by decide) (by decide +kernel) (by decide +kernel)
  refine ⟨resized 1, tinyWrite, run.forget, tiny_waiting, ?_, by decide⟩
  decide +kernel

end MyDrivers.Store
