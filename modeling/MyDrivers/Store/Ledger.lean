import MyDrivers.Store.Barren
import MyDrivers.Store.Objects
import MyDrivers.Store.Size

/-! The ledger of a device over whole runs. Every call, whatever fails in it,
leaves allocated exactly what can be reached; a trim gives all of it back. -/
namespace MyDrivers.Store
open Lib Lib.Machine

def Traces (s : Session) (done : (Call × Reply) × List Event) (t : Session) : Prop :=
  Step s done.1 t ∧ done.2 = (done.1.1.run s).trace

def entries (labels : List ((Call × Reply) × List Event)) : List (Entry Object) :=
  (labels.flatMap Prod.snd).filterMap Event.entry

structure Session.Empty (s : Session) : Prop where
  data : s.dev.data = []
  globals : Sound s.globals.scullQuantum s.globals.scullQsetN
  dev : Sound s.dev.quantum s.dev.qset

/-- What the entries of a run come to. -/
structure Accounted (labels : List ((Call × Reply) × List Event)) (s : Session) : Prop where
  /-- No free was a fault, and what is live is what can be reached. -/
  live : Lib.settle 0 (entries labels) = some (reachable s.dev.data)
  once : ((reachable s.dev.data).map Prod.fst).Nodup
  /-- A trim comes to its end and leaves nothing. -/
  trims : (scullTrim s.globals s.dev).result = some (trimmed s.globals s.dev)
  emptied : Lib.settle (reachable s.dev.data)
    ((scullTrim s.globals s.dev).trace.filterMap Event.entry) = some 0

section Runs
variable {s t : Session} {labels : List ((Call × Reply) × List Event)}

theorem orderly_empty (h : s.Empty) : Orderly Sound s :=
  ⟨h.globals, h.dev, h.data ▸ tidy_nil s.dev⟩

theorem Sound.setting {quantum qset : Int} (h : Sound quantum qset) : Setting qset := by
  obtain ⟨-, -, hlow, hhigh, -⟩ := h.divides
  exact ⟨by omega, hhigh⟩

theorem entries_snoc (labels : List ((Call × Reply) × List Event))
    (done : (Call × Reply) × List Event) :
    entries (labels ++ [done]) = entries labels ++ done.2.filterMap Event.entry := by
  simp [entries]

theorem run_settles (empty : s.Empty)
    (run : Run (While (fun s done => SettlesSound s done.1) Traces) s labels t) :
    Lib.settle 0 (entries labels) = some (reachable t.dev.data) ∧ Orderly Sound t := by
  refine run.invariant
    (fun labels t => Lib.settle 0 (entries labels) = some (reachable t.dev.data) ∧ Orderly Sound t) ?_ ?_
  · exact ⟨by rw [empty.data]; rfl, orderly_empty empty⟩
  · rintro labels s ⟨⟨call, reply⟩, trace⟩ t - ⟨hlive, horderly⟩ ⟨hsound, ⟨-, hstep⟩, htrace⟩
    obtain ⟨after, hsettle, hafter, horderly⟩ :=
      call_accounts horderly (fun _ _ => Sound.setting) call hsound _ hstep
    refine ⟨?_, horderly⟩
    simp only at htrace
    rw [entries_snoc, settle_append, hlive, Option.bind_some, htrace, hsettle, hafter]

/-- In every run in which no allocator hands out an address that is in use, the
objects that are live are those that can be reached, each once. -/
theorem run_accounted (empty : s.Empty)
    (run : Run (While (fun s done => SettlesSound s done.1) Traces) s labels t)
    (fresh : Fresh Prod.fst 0 (entries labels)) : Accounted labels t := by
  obtain ⟨hlive, horderly⟩ := run_settles empty run
  have htrim := scullTrim_ends t.globals horderly.tidy
  obtain ⟨after, hsettle, rfl, -⟩ := scullTrim_accounts t.globals horderly.tidy _ htrim
  exact ⟨hlive, settle_nodup (by simp) fresh hlive, htrim, hsettle⟩

end Runs

def small : Session := .init ⟨4, 2, 64, 4096⟩ .basic 0

def storedAgain : List ((Call × Reply) × List Event) :=
  [(storeByte 7, ((storeByte 7).1.run small).trace),
    ((.scullOpen O_WRONLY, ⟨0, 0, []⟩), ((Call.scullOpen O_WRONLY).run (holding 7 1)).trace),
    (storeByte 7, ((storeByte 7).1.run small).trace)]

theorem stored_again_run :
    Run (While (fun s done => SettlesSound s done.1) Traces) small storedAgain (holding 7 1) := by
  have trimmed : Step (holding 7 1) (.scullOpen O_WRONLY, ⟨0, 0, []⟩) small :=
    ⟨trivial, by decide +kernel⟩
  exact ((Run.single ⟨trivial, store_first.2, rfl⟩).snoc ⟨trivial, trimmed, rfl⟩).snoc
    ⟨trivial, store_first.2, rfl⟩

theorem run_accounted_again : Accounted storedAgain (holding 7 1) :=
  run_accounted ⟨rfl, by decide, by decide⟩ stored_again_run (by decide +kernel)

end MyDrivers.Store
