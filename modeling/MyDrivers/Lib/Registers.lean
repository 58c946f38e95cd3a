import Mathlib.Logic.Equiv.Basic
import Mathlib.Logic.Function.Basic
import Mathlib.Tactic.Common

/-! A file of independent registers, driven by commands that take their value from
an argument or from the caller's memory and give one back the same way. -/
namespace MyDrivers.Lib.Registers

variable {ι κ α : Type}

inductive Verb where
  | set
  | tell
  | get
  | query
  | exchange
  | shift
  deriving DecidableEq, Repr

inductive Order (ι : Type) where
  | reset
  | on (register : ι) (verb : Verb)
  deriving DecidableEq, Repr

/-- A command with its argument and what the caller's memory holds. -/
structure Request (ι α : Type) where
  order : Order ι
  arg : α
  value : α

/-- What the command returns, if it returns a register, and what it leaves in the
caller's memory. -/
structure Answer (α : Type) where
  returned : Option α
  memory : α
  deriving DecidableEq, Repr

def Order.map (f : ι → κ) : Order ι → Order κ
  | .reset => .reset
  | .on r verb => .on (f r) verb

def Request.map (f : ι → κ) (request : Request ι α) : Request κ α :=
  ⟨request.order.map f, request.arg, request.value⟩

section Apply
variable [DecidableEq ι] [DecidableEq κ]

def apply (defaults : ι → α) (file : ι → α) (request : Request ι α) : (ι → α) × Answer α :=
  match request.order with
  | .reset => (defaults, ⟨none, request.value⟩)
  | .on r .set => (Function.update file r request.value, ⟨none, request.value⟩)
  | .on r .tell => (Function.update file r request.arg, ⟨none, request.value⟩)
  | .on r .get => (file, ⟨none, file r⟩)
  | .on r .query => (file, ⟨some (file r), request.value⟩)
  | .on r .exchange => (Function.update file r request.value, ⟨none, file r⟩)
  | .on r .shift => (Function.update file r request.arg, ⟨some (file r), request.value⟩)

variable (defaults : ι → α) {file : ι → α} {request : Request ι α} {r : ι} {verb : Verb}

theorem apply_other (horder : request.order = .on r verb) {other : ι} (hne : other ≠ r) :
    (apply defaults file request).1 other = file other := by
  cases verb <;> simp [apply, horder, hne]

theorem apply_reads {file' : ι → α} (horder : request.order = .on r verb)
    (hsame : file r = file' r) :
    (apply defaults file request).1 r = (apply defaults file' request).1 r ∧
      (apply defaults file request).2 = (apply defaults file' request).2 := by
  cases verb <;> simp [apply, horder, hsame]

theorem apply_map (e : ι ≃ κ) (defaults' : κ → α) (horder : request.order ≠ .reset) :
    apply defaults' (file ∘ e.symm) (request.map e) =
      ((apply defaults file request).1 ∘ e.symm, (apply defaults file request).2) := by
  obtain ⟨order, arg, value⟩ := request
  cases order with
  | reset => exact absurd rfl horder
  | on r verb =>
    have hupdate (x : α) :
        Function.update (file ∘ e.symm) (e r) x = Function.update file r x ∘ e.symm := by
      rw [Function.update_comp_equiv, Equiv.symm_symm]
    cases verb <;> simp [apply, Request.map, Order.map, hupdate]

end Apply

end MyDrivers.Lib.Registers
