import Mathlib.Logic.Function.Basic
import MyDrivers.Store.Placement

/-! `scull_copy` of `scull/access.c`: every controlling terminal has a device of its
own, made when a process opens the device there for the first time. A pointer to an
item of `scull_c_list` is the number of items behind it. -/
namespace MyDrivers.Access.Copy
open Lib
open Store (Addr Byte Env Event Globals Reply ScullDev Supply Transfer EINVAL ENOMEM O_ACCMODE
  O_WRONLY trimmed scullInitDev)

structure ScullListitem where
  addr : Addr
  dev : ScullDev
  key : Nat
  deriving DecidableEq, Repr

/-- What `memset` makes of a device. -/
def zeroedDev : ScullDev := ⟨[], 0, 0, 0, 0, .basic⟩

def lookfor : List ScullListitem → Nat → Option Nat
  | [], _ => none
  | lptr :: next, key => if lptr.key = key then some next.length else lookfor next key

def itemAt : List ScullListitem → Nat → Option ScullListitem
  | [], _ => none
  | lptr :: next, dev => if next.length = dev then some lptr else itemAt next dev

/-- `*dev = after`. -/
def setDev : List ScullListitem → Nat → ScullDev → List ScullListitem
  | [], _, _ => []
  | lptr :: next, dev, after =>
      if next.length = dev then { lptr with dev := after } :: next
      else lptr :: setDev next dev after

def scullCLookforDevice (g : Globals) (list : List ScullListitem) (key : Nat) (supply : Supply) :
    Traced Event (Option Nat × List ScullListitem) :=
  match lookfor list key with
  | some dev => pure (some dev, list)
  | none => do
      let (lptr, _) ← Event.grant? supply .kmalloc
      match lptr with
      | none => return (none, list)
      | some addr =>
          let dev ← Store.scullTrim g zeroedDev
          return (some list.length, ⟨addr, dev, key⟩ :: list)

def onDevice {α : Type} (list : List ScullListitem) (dev : Nat)
    (op : ScullDev → Traced Event (α × ScullDev)) : Traced Event (α × List ScullListitem) :=
  match itemAt list dev with
  | none => ⟨[.follow none], none⟩
  | some lptr => do
      let (a, after) ← op lptr.dev
      return (a, setDev list dev after)

/-- What `scull_c_open` returns, `filp->private_data` and the list. -/
def scullCOpen (g : Globals) (list : List ScullListitem) (tty : Option Nat) (fFlags : Nat)
    (supply : Supply) : Traced Event (Int × Option Nat × List ScullListitem) :=
  match tty with
  | none => pure (-EINVAL, none, list)
  | some key => do
      let (dev, list) ← scullCLookforDevice g list key supply
      match dev with
      | none => return (-ENOMEM, none, list)
      | some dev =>
          if fFlags &&& O_ACCMODE = O_WRONLY then
            let (_, list) ← onDevice list dev fun d => do
              let d ← Store.scullTrim g d
              return ((), d)
            return (0, some dev, list)
          else return (0, some dev, list)

/-! ## The list -/

section List
variable {list : List ScullListitem} {key k dev p : Nat} {lptr : ScullListitem}

theorem itemAt_lt (h : itemAt list dev = some lptr) : dev < list.length := by
  induction list with
  | nil => cases h
  | cons head next ih =>
    unfold itemAt at h
    split at h
    · next hhere =>
      rw [List.length_cons]
      omega
    · exact (ih h).trans (Nat.lt_succ_self _)

theorem lookfor_item (h : lookfor list key = some dev) :
    ∃ lptr, itemAt list dev = some lptr ∧ lptr.key = key := by
  induction list with
  | nil => cases h
  | cons head next ih =>
    unfold lookfor at h
    unfold itemAt
    split at h
    · next hkey =>
      cases h
      exact ⟨head, if_pos rfl, hkey⟩
    · obtain ⟨lptr, hitem, hkey⟩ := ih h
      have hlt := itemAt_lt hitem
      exact ⟨lptr, by rw [if_neg (by omega), hitem], hkey⟩

theorem lookfor_eq_none : lookfor list key = none ↔ key ∉ list.map (·.key) := by
  induction list with
  | nil => simp [lookfor]
  | cons head next ih =>
    unfold lookfor
    split
    · next hkey => simp [hkey]
    · next hkey => simp [ih, Ne.symm hkey]

@[simp] theorem length_setDev (list : List ScullListitem) (dev : Nat) (after : ScullDev) :
    (setDev list dev after).length = list.length := by
  induction list with
  | nil => rfl
  | cons head next ih =>
    unfold setDev
    split
    · rfl
    · simp [ih]

@[simp] theorem keys_setDev (list : List ScullListitem) (dev : Nat) (after : ScullDev) :
    (setDev list dev after).map (·.key) = list.map (·.key) := by
  induction list with
  | nil => rfl
  | cons head next ih =>
    unfold setDev
    split
    · rfl
    · simp [ih]

@[simp] theorem lookfor_setDev (list : List ScullListitem) (dev : Nat) (after : ScullDev)
    (key : Nat) : lookfor (setDev list dev after) key = lookfor list key := by
  induction list with
  | nil => rfl
  | cons head next ih =>
    unfold setDev
    split
    · rfl
    · simp [lookfor, ih]

theorem itemAt_setDev (list : List ScullListitem) (dev : Nat) (after : ScullDev) (p : Nat) :
    itemAt (setDev list dev after) p =
      (itemAt list p).map fun lptr => if dev = p then { lptr with dev := after } else lptr := by
  induction list with
  | nil => rfl
  | cons head next ih =>
    unfold setDev
    split
    · next hhere =>
      by_cases hp : next.length = p
      · simp [itemAt, hp, ← hhere]
      · have hother : dev ≠ p := by omega
        cases hitem : itemAt next p <;> simp [itemAt, hp, hother, hitem]
    · next haway =>
      by_cases hp : next.length = p
      · have hother : dev ≠ p := by omega
        simp [itemAt, hp, hother]
      · simp [itemAt, hp, ih]

theorem setDev_self (h : itemAt list dev = some lptr) : setDev list dev lptr.dev = list := by
  induction list with
  | nil => rfl
  | cons head next ih =>
    unfold itemAt at h
    unfold setDev
    split at h
    · next hhere =>
      cases h
      rw [if_pos hhere]
    · next haway => rw [if_neg haway, ih h]

def deviceOf (list : List ScullListitem) (key : Nat) : Option ScullDev :=
  (lookfor list key).bind fun dev => (itemAt list dev).map (·.dev)

theorem deviceOf_item (h : lookfor list key = some dev) :
    ∃ lptr, itemAt list dev = some lptr ∧ deviceOf list key = some lptr.dev := by
  obtain ⟨lptr, hitem, -⟩ := lookfor_item h
  exact ⟨lptr, hitem, by simp [deviceOf, h, hitem]⟩

theorem deviceOf_setDev (h : lookfor list key = some dev) (after : ScullDev) (k : Nat) :
    deviceOf (setDev list dev after) k = if k = key then some after else deviceOf list k := by
  unfold deviceOf
  rw [lookfor_setDev]
  cases hk : lookfor list k with
  | none =>
    have hother : k ≠ key := by
      rintro rfl
      rw [h] at hk
      cases hk
    rw [if_neg hother]
    rfl
  | some p =>
    obtain ⟨lptr, hitem, hkey⟩ := lookfor_item h
    obtain ⟨lptr', hitem', hkey'⟩ := lookfor_item hk
    rw [Option.bind_some, Option.bind_some, itemAt_setDev]
    by_cases hsame : k = key
    · subst hsame
      rw [h] at hk
      cases hk
      simp [hitem]
    · have hother : dev ≠ p := by
        rintro rfl
        rw [hitem] at hitem'
        cases hitem'
        exact hsame (hkey'.symm.trans hkey)
      simp [hsame, hother]

theorem deviceOf_cons (lptr : ScullListitem) (list : List ScullListitem) (k : Nat) :
    deviceOf (lptr :: list) k = if k = lptr.key then some lptr.dev else deviceOf list k := by
  unfold deviceOf
  by_cases hk : k = lptr.key
  · simp [lookfor, itemAt, hk]
  · rw [lookfor, if_neg (Ne.symm hk), if_neg hk]
    cases hp : lookfor list k with
    | none => rfl
    | some p =>
      obtain ⟨item, hitem, -⟩ := lookfor_item hp
      have hlt := itemAt_lt hitem
      rw [Option.bind_some, Option.bind_some, itemAt, if_neg (by omega)]

end List

/-! ## scull_c_open -/

/-- What `scull_c_open` does for a process whose terminal is `key`. -/
inductive Opened (g : Globals) (list : List ScullListitem) (key fFlags : Nat) (supply : Supply) :
    Int × Option Nat × List ScullListitem → Prop
  | noMemory (new : lookfor list key = none) (failed : supply 0 = none) :
      Opened g list key fFlags supply (-ENOMEM, none, list)
  | first (addr : Addr) (dev : ScullDev) (new : lookfor list key = none)
      (allocated : supply 0 = some addr)
      (opened : (Store.scullOpen g (scullInitDev g .basic 0) fFlags).result = some dev) :
      Opened g list key fFlags supply (0, some list.length, ⟨addr, dev, key⟩ :: list)
  | again (p : Nat) (before dev : ScullDev) (known : lookfor list key = some p)
      (device : deviceOf list key = some before)
      (opened : (Store.scullOpen g before fFlags).result = some dev) :
      Opened g list key fFlags supply (0, some p, setDev list p dev)

theorem grant?_result (supply : Supply) (via : Store.Allocator) :
    (Event.grant? supply via).result = some (supply 0, supply.drop 1) := by
  unfold Event.grant?
  cases supply 0 <;> rfl

theorem lookforDevice_result (g : Globals) (list : List ScullListitem) (key : Nat)
    (supply : Supply) :
    (scullCLookforDevice g list key supply).result =
      some (match lookfor list key with
        | some dev => (some dev, list)
        | none => match supply 0 with
          | none => (none, list)
          | some addr => (some list.length, ⟨addr, scullInitDev g .basic 0, key⟩ :: list)) := by
  unfold scullCLookforDevice
  cases lookfor list key with
  | some dev => rfl
  | none =>
    rw [Traced.result_bind, grant?_result]
    cases supply 0 with
    | none => rfl
    | some addr => rfl

theorem enter_returns {g : Globals} {list : List ScullListitem} {dev fFlags : Nat}
    {lptr : ScullListitem} (hitem : itemAt list dev = some lptr) :
    (if fFlags &&& O_ACCMODE = O_WRONLY then do
        let (_, list) ← onDevice list dev fun d => do
          let d ← Store.scullTrim g d
          return ((), d)
        return ((0 : Int), some dev, list)
      else return (0, some dev, list) : Traced Event (Int × Option Nat × List ScullListitem)).Returns
      fun r => ∃ after, (Store.scullOpen g lptr.dev fFlags).result = some after ∧
        r = (0, some dev, setDev list dev after) := by
  split
  · next hflags =>
    simp only [onDevice, hitem, bind_assoc, pure_bind]
    refine .bind (fun after => (Store.scullTrim g lptr.dev).result = some after) (fun _ h => h) ?_
    intro after hafter
    exact .pure ⟨after, by rw [Store.scullOpen, if_pos hflags, hafter], rfl⟩
  · next hflags =>
    exact .pure ⟨lptr.dev, by rw [Store.scullOpen, if_neg hflags]; rfl, by rw [setDev_self hitem]⟩

theorem open_returns (g : Globals) (list : List ScullListitem) (key fFlags : Nat)
    (supply : Supply) :
    (scullCOpen g list (some key) fFlags supply).Returns (Opened g list key fFlags supply) := by
  refine .bind (fun r => (scullCLookforDevice g list key supply).result = some r)
    (fun _ h => h) ?_
  rintro ⟨found, after⟩ hfound
  rw [lookforDevice_result] at hfound
  cases hlookup : lookfor list key with
  | some p =>
    rw [hlookup] at hfound
    cases hfound
    obtain ⟨lptr, hitem, hdevice⟩ := deviceOf_item hlookup
    refine (enter_returns hitem).mono ?_
    rintro _ ⟨dev, hopened, rfl⟩
    exact .again p lptr.dev dev hlookup hdevice hopened
  | none =>
    rw [hlookup] at hfound
    cases hsupply : supply 0 with
    | none =>
      rw [hsupply] at hfound
      cases hfound
      exact .pure (.noMemory hlookup hsupply)
    | some addr =>
      rw [hsupply] at hfound
      cases hfound
      have hitem : itemAt (⟨addr, scullInitDev g .basic 0, key⟩ :: list) list.length =
          some ⟨addr, scullInitDev g .basic 0, key⟩ := by
        simp [itemAt]
      refine (enter_returns hitem).mono ?_
      rintro _ ⟨dev, hopened, rfl⟩
      have hfirst : setDev (⟨addr, scullInitDev g .basic 0, key⟩ :: list) list.length dev =
          ⟨addr, dev, key⟩ :: list := by
        simp [setDev]
      rw [hfirst]
      exact .first addr dev hlookup hsupply hopened

/-! ## Calls -/

/-- An open file, named by the terminal its `open` came from and a number. -/
structure File where
  key : Nat
  fd : Nat
  deriving DecidableEq, Repr

structure OpenFile where
  privateData : Nat
  fPos : Int

structure Session where
  list : List ScullListitem
  files : File → Option OpenFile

/-- The calls of `scull_c_fops`. A read or a write is at `f_pos` unless it names an
offset, as `pread` does. -/
inductive Call where
  | scullCOpen (tty : Option Nat) (fd : Nat) (fFlags : Nat) (supply : Supply)
  | scullRead (file : File) (offset : Option Int) (count : Nat) (env : Env)
  | scullWrite (file : File) (offset : Option Int) (buff : List Byte) (env : Env)
  | scullCRelease (file : File)

/-- `vfs_read` and `vfs_write`: find the file, pass its device and a position. -/
def Session.transfer (s : Session) (file : File) (offset : Option Int)
    (op : ScullDev → Int → Traced Event Transfer) : Traced Event (Session × Reply) :=
  match s.files file with
  | none => ⟨[], none⟩
  | some filp => do
      let (t, list) ← onDevice s.list filp.privateData fun dev => do
        let t ← op dev (offset.getD filp.fPos)
        return (t, t.dev)
      let files :=
        if offset.isNone then Function.update s.files file (some { filp with fPos := t.pos })
        else s.files
      return (⟨list, files⟩, ⟨t.ret, t.pos, t.bytes⟩)

def Call.run (g : Globals) (s : Session) : Call → Traced Event (Session × Reply)
  | .scullCOpen tty fd fFlags supply => do
      let (ret, privateData, list) ← Copy.scullCOpen g s.list tty fFlags supply
      let files :=
        match tty, privateData with
        | some key, some dev => Function.update s.files ⟨key, fd⟩ (some ⟨dev, 0⟩)
        | _, _ => s.files
      return (⟨list, files⟩, ⟨ret, 0, []⟩)
  | .scullRead file offset count env =>
      s.transfer file offset fun dev pos => Store.scullRead dev count pos env
  | .scullWrite file offset buff env =>
      s.transfer file offset fun dev pos => Store.scullWrite g dev buff pos env
  | .scullCRelease file => pure (⟨s.list, Function.update s.files file none⟩, ⟨0, 0, []⟩)

def Step (g : Globals) (s : Session) (done : Call × Reply) (t : Session) : Prop :=
  (done.1.run g s).result = some (t, done.2)

def Session.moved (s : Session) (file : File) (filp : OpenFile) (offset : Option Int)
    (t : Transfer) : Session :=
  ⟨setDev s.list filp.privateData t.dev,
    if offset.isNone then Function.update s.files file (some { filp with fPos := t.pos })
    else s.files⟩

inductive Stepped (g : Globals) (s : Session) : Call × Reply → Session → Prop
  | noTerminal (fd fFlags : Nat) (supply : Supply) :
      Stepped g s (.scullCOpen none fd fFlags supply, ⟨-EINVAL, 0, []⟩) s
  | noMemory (key fd fFlags : Nat) (supply : Supply) (new : lookfor s.list key = none)
      (failed : supply 0 = none) :
      Stepped g s (.scullCOpen (some key) fd fFlags supply, ⟨-ENOMEM, 0, []⟩) s
  | first (key fd fFlags : Nat) (supply : Supply) (addr : Addr) (dev : ScullDev)
      (new : lookfor s.list key = none) (allocated : supply 0 = some addr)
      (opened : (Store.scullOpen g (scullInitDev g .basic 0) fFlags).result = some dev) :
      Stepped g s (.scullCOpen (some key) fd fFlags supply, ⟨0, 0, []⟩)
        ⟨⟨addr, dev, key⟩ :: s.list,
          Function.update s.files ⟨key, fd⟩ (some ⟨s.list.length, 0⟩)⟩
  | again (key fd fFlags : Nat) (supply : Supply) (p : Nat) (before dev : ScullDev)
      (known : lookfor s.list key = some p) (device : deviceOf s.list key = some before)
      (opened : (Store.scullOpen g before fFlags).result = some dev) :
      Stepped g s (.scullCOpen (some key) fd fFlags supply, ⟨0, 0, []⟩)
        ⟨setDev s.list p dev, Function.update s.files ⟨key, fd⟩ (some ⟨p, 0⟩)⟩
  | read (file : File) (offset : Option Int) (count : Nat) (env : Env) (filp : OpenFile)
      (lptr : ScullListitem) (t : Transfer) (found : s.files file = some filp)
      (item : itemAt s.list filp.privateData = some lptr)
      (returned : (Store.scullRead lptr.dev count (offset.getD filp.fPos) env).result = some t) :
      Stepped g s (.scullRead file offset count env, ⟨t.ret, t.pos, t.bytes⟩)
        (s.moved file filp offset t)
  | write (file : File) (offset : Option Int) (buff : List Byte) (env : Env) (filp : OpenFile)
      (lptr : ScullListitem) (t : Transfer) (found : s.files file = some filp)
      (item : itemAt s.list filp.privateData = some lptr)
      (returned : (Store.scullWrite g lptr.dev buff (offset.getD filp.fPos) env).result = some t) :
      Stepped g s (.scullWrite file offset buff env, ⟨t.ret, t.pos, t.bytes⟩)
        (s.moved file filp offset t)
  | release (file : File) :
      Stepped g s (.scullCRelease file, ⟨0, 0, []⟩)
        ⟨s.list, Function.update s.files file none⟩

theorem transfer_returns (s : Session) (file : File) (offset : Option Int)
    (op : ScullDev → Int → Traced Event Transfer) :
    (s.transfer file offset op).Returns fun r => ∃ filp lptr t, s.files file = some filp ∧
      itemAt s.list filp.privateData = some lptr ∧
      (op lptr.dev (offset.getD filp.fPos)).result = some t ∧
      r = (s.moved file filp offset t, ⟨t.ret, t.pos, t.bytes⟩) := by
  unfold Session.transfer
  cases hfile : s.files file with
  | none =>
    intro r hr
    cases hr
  | some filp =>
    cases hitem : itemAt s.list filp.privateData with
    | none =>
      intro r hr
      simp only [onDevice, hitem] at hr
      cases hr
    | some lptr =>
      simp only [onDevice, hitem, bind_assoc, pure_bind]
      refine .bind (fun t => (op lptr.dev (offset.getD filp.fPos)).result = some t)
        (fun _ h => h) ?_
      intro t ht
      exact .pure ⟨filp, lptr, t, rfl, hitem, ht, rfl⟩

theorem step_cases {g : Globals} {s t : Session} {done : Call × Reply} (h : Step g s done t) :
    Stepped g s done t := by
  obtain ⟨call, reply⟩ := done
  unfold Step at h
  cases call with
  | scullCOpen tty fd fFlags supply =>
    cases tty with
    | none =>
      cases h
      exact .noTerminal fd fFlags supply
    | some key =>
      simp only [Call.run, Traced.result_bind] at h
      obtain ⟨⟨ret, privateData, list⟩, hopen, hreply⟩ := Option.bind_eq_some_iff.mp h
      cases open_returns g s.list key fFlags supply _ hopen with
      | noMemory new failed =>
        cases hreply
        exact .noMemory key fd fFlags supply new failed
      | first addr dev new allocated opened =>
        cases hreply
        exact .first key fd fFlags supply addr dev new allocated opened
      | again p before dev known device opened =>
        cases hreply
        exact .again key fd fFlags supply p before dev known device opened
  | scullRead file offset count env =>
    obtain ⟨filp, lptr, transfer, found, item, returned, hreply⟩ :=
      transfer_returns s file offset _ _ h
    cases hreply
    exact .read file offset count env filp lptr transfer found item returned
  | scullWrite file offset buff env =>
    obtain ⟨filp, lptr, transfer, found, item, returned, hreply⟩ :=
      transfer_returns s file offset _ _ h
    cases hreply
    exact .write file offset buff env filp lptr transfer found item returned
  | scullCRelease file =>
    cases h
    exact .release file

def Session.init : Session := ⟨[], fun _ => none⟩

end MyDrivers.Access.Copy
