import MyDrivers.Lib.Mealy
import MyDrivers.Lib.Registers
import MyDrivers.Store.Ioctl

/-! `scull_ioctl` as a file of two registers. Every case of its `switch` is one
command on one of them, so the copied branches are told apart by a register and a
verb only; the one that differs from its copy hands back another value. -/
namespace MyDrivers.Store
open Lib Lib.Machine Lib.Registers

inductive Register where
  | quantum
  | qset
  deriving DecidableEq, Repr

def Globals.file (g : Globals) : Register → Int
  | .quantum => g.scullQuantum
  | .qset => g.scullQsetN

def Globals.put (g : Globals) (file : Register → Int) : Globals :=
  { g with scullQuantum := file .quantum, scullQsetN := file .qset }

def Globals.set (g : Globals) (r : Register) (x : Int) : Globals :=
  g.put (Function.update g.file r x)

def defaults : Register → Int
  | .quantum => QUANTUM_SIZE
  | .qset => QSET_SIZE

@[simp] theorem file_put (g : Globals) (file : Register → Int) : (g.put file).file = file := by
  funext r
  cases r <;> rfl

theorem put_file (g : Globals) : g.put g.file = g := rfl

theorem put_eq_iff (g : Globals) (file : Register → Int) : g.put file = g ↔ file = g.file := by
  constructor
  · intro h
    rw [← file_put g file, h]
  · rintro rfl
    rfl

theorem set_eq_iff (g : Globals) (r : Register) (x : Int) : g.set r x = g ↔ g.file r = x := by
  rw [Globals.set, put_eq_iff]
  constructor
  · intro h
    simpa using (congrFun h r).symm
  · rintro rfl
    exact Function.update_eq_self r g.file

def Command.order : Command → Order Register
  | .reset => .reset
  | .setQuantum => .on .quantum .set
  | .tellQuantum => .on .quantum .tell
  | .getQuantum => .on .quantum .get
  | .queryQuantum => .on .quantum .query
  | .exchangeQuantum => .on .quantum .exchange
  | .shiftQuantum => .on .quantum .shift
  | .setQset => .on .qset .set
  | .tellQset => .on .qset .tell
  | .getQset => .on .qset .get
  | .queryQset => .on .qset .query
  | .exchangeQset => .on .qset .exchange
  | .shiftQset => .on .qset .shift

def code : Order Register → Nat
  | .reset => SCULL_IOCRESET
  | .on .quantum .set => SCULL_IOCSQUANTUM
  | .on .quantum .tell => SCULL_IOCTQUANTUM
  | .on .quantum .get => SCULL_IOCGQUANTUM
  | .on .quantum .query => SCULL_IOCQQUANTUM
  | .on .quantum .exchange => SCULL_IOCXQUANTUM
  | .on .quantum .shift => SCULL_IOCHQUANTUM
  | .on .qset .set => SCULL_IOCSQSET
  | .on .qset .tell => SCULL_IOCTQSET
  | .on .qset .get => SCULL_IOCGQSET
  | .on .qset .query => SCULL_IOCQQSET
  | .on .qset .exchange => SCULL_IOCXQSET
  | .on .qset .shift => SCULL_IOCHQSET

/-- The commands that ask for `CAP_SYS_ADMIN`. -/
def asks : Verb → Bool
  | .set => true
  | .tell => true
  | .get => false
  | .query => false
  | .exchange => true
  | .shift => true

/-- What an exchange gives back when `x` is the new value. -/
def givenBack (g : Globals) (x : Int) : Register → Int
  | .quantum => g.scullQuantum
  | .qset => x

def perform (g : Globals) (call : IoctlCall) : Order Register → IoctlResult
  | .reset => ⟨0, g.put defaults, call.user⟩
  | .on r verb =>
      if asks verb ∧ ¬ call.capable then ⟨-EPERM, g, call.user⟩
      else
        match verb with
        | .set => ⟨(getUser call).1, g.set r (getUser call).2, call.user⟩
        | .tell => ⟨0, g.set r (int32 call.arg), call.user⟩
        | .get => ⟨(putUser call (g.file r)).1, g, (putUser call (g.file r)).2⟩
        | .query => ⟨g.file r, g, call.user⟩
        | .exchange =>
            let x := (getUser call).2
            if (getUser call).1 = 0 then
              ⟨(putUser call (givenBack g x r)).1, g.set r x, (putUser call (givenBack g x r)).2⟩
            else ⟨(getUser call).1, g.set r x, call.user⟩
        | .shift => ⟨g.file r, g.set r (int32 call.arg), call.user⟩

theorem run_eq_perform (g : Globals) (call : IoctlCall) (command : Command) :
    command.run g call = perform g call command.order := by
  cases command with
  | reset | getQuantum | queryQuantum | getQset | queryQset =>
    simp [Command.run, Command.order, perform, asks, Globals.put, Globals.file, defaults]
  | _ =>
    cases hcapable : call.capable with
    | false => simp [Command.run, Command.order, perform, asks, hcapable]
    | true =>
      simp [Command.run, Command.order, perform, asks, hcapable, Globals.set, Globals.put,
        Globals.file, givenBack]

def IoctlCall.order (call : IoctlCall) : Option (Order Register) :=
  if call.accessOk then (Command.ofCode call.cmd).map Command.order else none

theorem ofCode_code (order : Order Register) :
    (Command.ofCode (code order)).map Command.order = some order := by
  rcases order with _ | ⟨_ | _, _ | _ | _ | _ | _ | _⟩ <;> decide

theorem ofCode_checked {cmd : Nat} {command : Command} (h : Command.ofCode cmd = some command) :
    iocType cmd = SCULL_IOC_MAGIC ∧ iocNr cmd ≤ SCULL_IOC_MAXNR := by
  have hall : ∀ entry ∈ Command.table,
      iocType entry.1 = SCULL_IOC_MAGIC ∧ iocNr entry.1 ≤ SCULL_IOC_MAXNR := by decide
  obtain ⟨before, later, htable, -⟩ := List.lookup_eq_some_iff.mp h
  apply hall (cmd, command)
  rw [htable]
  simp

def refusal (call : IoctlCall) : Int :=
  if iocType call.cmd ≠ SCULL_IOC_MAGIC ∨ iocNr call.cmd > SCULL_IOC_MAXNR ∨ call.accessOk then
    -ENOTTY
  else -EFAULT

theorem scullIoctl_reached {call : IoctlCall} {order : Order Register}
    (h : call.order = some order) (g : Globals) : scullIoctl g call = perform g call order := by
  unfold IoctlCall.order at h
  split at h
  · next haccess =>
    obtain ⟨command, hcode, rfl⟩ := Option.map_eq_some_iff.mp h
    obtain ⟨htype, hnr⟩ := ofCode_checked hcode
    rw [scullIoctl, if_neg (by simp [htype]), if_neg (by omega), if_neg (by simp [haccess]), hcode]
    exact run_eq_perform g call command
  · cases h

theorem scullIoctl_refused {call : IoctlCall} (h : call.order = none) (g : Globals) :
    scullIoctl g call = ⟨refusal call, g, call.user⟩ := by
  unfold scullIoctl refusal
  by_cases htype : iocType call.cmd = SCULL_IOC_MAGIC
  · by_cases hnr : iocNr call.cmd > SCULL_IOC_MAXNR
    · simp [htype, hnr]
    · cases haccess : call.accessOk with
      | false => simp [htype, hnr]
      | true =>
        simp only [IoctlCall.order, haccess, if_true, Option.map_eq_none_iff] at h
        simp [htype, hnr, h]
  · simp [htype]

/-! ## Commands of privileged callers whose memory is accessible -/

/-- A command with its argument and the caller's `int`. A value passed as argument is
below `2 ^ 31`; an address may be any. -/
structure Asked where
  order : Order Register
  arg : Nat
  value : Int
  arg_int : ∀ r, order = .on r .tell ∨ order = .on r .shift → arg < 2147483648
  value_int : Setting value

def Asked.call (asked : Asked) : IoctlCall :=
  ⟨code asked.order, asked.arg, true, true, some asked.value, true⟩

def Asked.request (asked : Asked) : Request Register Int := ⟨asked.order, asked.arg, asked.value⟩

/-- What the caller sees: the value returned and the `int` in its memory. -/
def serve (g : Globals) (asked : Asked) : Globals × (Int × Option Int) :=
  let r := scullIoctl g asked.call
  (r.globals, r.ret, r.user)

def seen (answer : Answer Int) : Int × Option Int :=
  (answer.returned.getD 0, some answer.memory)

/-- The commands act on a file of two registers. -/
def Refines (g : Globals) (asked : List Asked) : Prop :=
  Mealy.after (apply defaults) g.file (asked.map Asked.request) =
      (Mealy.after serve g asked).file ∧
    Mealy.answers serve g asked =
      (Mealy.answers (apply defaults) g.file (asked.map Asked.request)).map seen

def exchangeRegisters : Register ≃ Register where
  toFun | .quantum => .qset | .qset => .quantum
  invFun | .quantum => .qset | .qset => .quantum
  left_inv r := by cases r <;> rfl
  right_inv r := by cases r <;> rfl

def Globals.swap (g : Globals) : Globals := g.put (g.file ∘ exchangeRegisters)

theorem map_on_iff {order : Order Register} {r : Register} {verb : Verb} :
    order.map exchangeRegisters = .on (exchangeRegisters r) verb ↔ order = .on r verb := by
  cases order with
  | reset => simp [Order.map]
  | on s verb' => simp [Order.map]

def Asked.swap (asked : Asked) : Asked where
  order := asked.order.map exchangeRegisters
  arg := asked.arg
  value := asked.value
  arg_int r h := by
    obtain ⟨s, rfl⟩ := exchangeRegisters.surjective r
    rw [map_on_iff, map_on_iff] at h
    exact asked.arg_int s h
  value_int := asked.value_int

def Mirrors (g : Globals) (asked : List Asked) : Prop :=
  Mealy.after serve g.swap (asked.map Asked.swap) = (Mealy.after serve g asked).swap ∧
    Mealy.answers serve g asked = Mealy.answers serve g.swap (asked.map Asked.swap)

def Separate (asked : Asked) : Prop :=
  ∀ r verb, asked.order = .on r verb → ∀ g : Globals,
    (∀ other, other ≠ r → (serve g asked).1.file other = g.file other) ∧
      ∀ g' : Globals, g.file r = g'.file r →
        (serve g asked).1.file r = (serve g' asked).1.file r ∧
          (serve g asked).2 = (serve g' asked).2

def Regains (r : Register) (g : Globals) (asked : Asked) : Prop :=
  asked.order = .on r .exchange → asked.value = g.file r

theorem order_call (asked : Asked) : asked.call.order = some asked.order := by
  simp [IoctlCall.order, Asked.call, ofCode_code]

theorem serve_eq (g : Globals) (asked : Asked) :
    (serve g asked).1 = g.put (apply defaults g.file asked.request).1 ∧
      (serve g asked).2 =
        if asked.order = .on .qset .exchange then (0, some asked.value)
        else seen (apply defaults g.file asked.request).2 := by
  have hreached := scullIoctl_reached (order_call asked) g
  have hvalue : int32 asked.value = asked.value :=
    int32_eq_self asked.value_int.1 asked.value_int.2
  simp only [serve, hreached]
  cases horder : asked.order with
  | reset => simp [perform, apply, Asked.request, horder, seen, Asked.call]
  | on r verb =>
    have harg (h : verb = .tell ∨ verb = .shift) : int32 asked.arg = asked.arg := by
      have hbound := asked.arg_int r (by simpa [horder] using h)
      exact int32_eq_self (by omega) (by omega)
    cases verb with
    | tell | shift =>
      simp [perform, apply, Asked.request, horder, seen, Asked.call, harg, Globals.set]
    | set | get | query =>
      simp [perform, apply, Asked.request, horder, seen, Asked.call, Globals.set, getUser, putUser,
        hvalue, put_file]
    | exchange =>
      cases r <;>
        simp [perform, apply, Asked.request, horder, seen, Asked.call, Globals.set, getUser,
          putUser, hvalue, givenBack, Globals.file]

theorem serve_file (g : Globals) (asked : Asked) :
    (serve g asked).1.file = (apply defaults g.file asked.request).1 := by
  rw [(serve_eq g asked).1, file_put]

theorem serve_answer_iff (g : Globals) (asked : Asked) :
    (serve g asked).2 = seen (apply defaults g.file asked.request).2 ↔ Regains .qset g asked := by
  rw [(serve_eq g asked).2, Regains]
  split
  · next horder => simp [apply, Asked.request, horder, seen]
  · next horder => simp [horder]

theorem refines_iff (g : Globals) (asked : List Asked) :
    Refines g asked ↔ Mealy.Along serve (Regains .qset) g asked := by
  have same : ∀ g, ∀ a ∈ asked, (apply defaults g.file a.request).1 = (serve g a).1.file :=
    fun g a _ => (serve_file g a).symm
  have hafter := Mealy.after_map same g
  have hanswers := Mealy.answers_map_iff same id seen g
  rw [List.map_id] at hanswers
  rw [Refines, hanswers]
  simp only [hafter, true_and, id]
  exact Mealy.Along.congr fun g a _ => serve_answer_iff g a

theorem serve_separate (asked : Asked) : Separate asked := by
  intro r verb horder g
  have hrequest : asked.request.order = .on r verb := horder
  constructor
  · intro other hne
    rw [serve_file]
    exact apply_other defaults hrequest hne
  · intro g' hsame
    obtain ⟨hfile, hanswer⟩ := apply_reads defaults hrequest hsame
    rw [serve_file, serve_file, (serve_eq g asked).2, (serve_eq g' asked).2, hanswer]
    exact ⟨hfile, rfl⟩

theorem swap_file (g : Globals) : g.swap.file = g.file ∘ exchangeRegisters.symm := by
  funext r
  cases r <;> rfl

theorem apply_swap {asked : Asked} (horder : asked.order ≠ .reset) (g : Globals) :
    apply defaults g.swap.file asked.swap.request =
      ((apply defaults g.file asked.request).1 ∘ exchangeRegisters.symm,
        (apply defaults g.file asked.request).2) := by
  have hrequest : asked.request.order ≠ .reset := horder
  rw [swap_file]
  exact apply_map defaults exchangeRegisters defaults hrequest

theorem serve_swap {asked : Asked} (horder : asked.order ≠ .reset) (g : Globals) :
    (serve g.swap asked.swap).1 = (serve g asked).1.swap := by
  rw [(serve_eq _ _).1, (serve_eq _ _).1, apply_swap horder]
  rfl

theorem serve_swap_iff {asked : Asked} (horder : asked.order ≠ .reset) (g : Globals) :
    (serve g asked).2 = (serve g.swap asked.swap).2 ↔ ∀ r, Regains r g asked := by
  rw [(serve_eq _ _).2, (serve_eq _ _).2, apply_swap horder]
  cases hon : asked.order with
  | reset => exact absurd hon horder
  | on r verb =>
    cases verb <;> cases r <;>
      simp [Regains, hon, Asked.swap, Order.map, exchangeRegisters, apply, Asked.request, seen,
        eq_comm]

theorem mirrors_iff (g : Globals) {asked : List Asked} (horders : ∀ a ∈ asked, a.order ≠ .reset) :
    Mirrors g asked ↔ Mealy.Along serve (fun g a => ∀ r, Regains r g a) g asked := by
  have same : ∀ g, ∀ a ∈ asked, (serve g.swap a.swap).1 = (serve g a).1.swap :=
    fun g a ha => serve_swap (horders a ha) g
  have hafter := Mealy.after_map same g
  have hanswers := Mealy.answers_map_iff same id id g
  rw [List.map_id, List.map_id] at hanswers
  rw [Mirrors, hanswers]
  simp only [hafter, true_and, id]
  exact Mealy.Along.congr fun g a ha => serve_swap_iff (horders a ha) g

/-- The two settings are independent registers up to the value that an exchange of
`scull_qset_n` hands back, which is the one it was given. -/
theorem registers_iff (g : Globals) (asked : List Asked) :
    (Refines g asked ↔ Mealy.Along serve (Regains .qset) g asked) ∧
      ((∀ a ∈ asked, a.order ≠ .reset) →
        (Mirrors g asked ↔ Mealy.Along serve (fun g a => ∀ r, Regains r g a) g asked)) ∧
      ∀ a ∈ asked, Separate a :=
  ⟨refines_iff g asked, mirrors_iff g, fun a _ => serve_separate a⟩

/-- `SCULL_IOCXQSET` with the value 5 on a module that has just been loaded. -/
def exchangeFive : Asked where
  order := .on .qset .exchange
  arg := 4096
  value := 5
  arg_int := by simp
  value_int := ⟨by decide, by decide⟩

theorem exchange_forgets :
    ¬ Refines ⟨QUANTUM_SIZE, QSET_SIZE, 1024, 4096⟩ [exchangeFive] ∧
      serve ⟨QUANTUM_SIZE, QSET_SIZE, 1024, 4096⟩ exchangeFive =
        (⟨QUANTUM_SIZE, 5, 1024, 4096⟩, 0, some 5) := by
  constructor
  · rw [refines_iff]
    rintro ⟨hregains, -⟩
    exact absurd (hregains rfl) (by decide)
  · decide +kernel

end MyDrivers.Store
