import MyDrivers.Access.Copy
import MyDrivers.Lib.Runs
import MyDrivers.Store.Contents
import MyDrivers.Store.Size

/-! Terminals do not notice each other on `scull_copy`: each one's calls go as on a
device that is private to it. -/
namespace MyDrivers.Access.Copy
open Lib
open Store (Byte Env Event Globals Reply ScullDev Supply Transfer ENOMEM O_ACCMODE O_WRONLY
  trimmed scullInitDev)

/-! ## A private device -/

/-- A device once it has been opened, and the positions of its open files. -/
structure Terminal where
  dev : Option ScullDev
  files : Nat → Option Int

def Terminal.opened (terminal : Terminal) (fd : Nat) (dev : ScullDev) : Terminal × Reply :=
  (⟨some dev, Function.update terminal.files fd (some 0)⟩, ⟨0, 0, []⟩)

def Terminal.transfer (terminal : Terminal) (fd : Nat) (offset : Option Int)
    (op : ScullDev → Int → Traced Event Transfer) : Traced Event (Terminal × Reply) :=
  match terminal.files fd, terminal.dev with
  | some fPos, some dev => do
      let t ← op dev (offset.getD fPos)
      let files :=
        if offset.isNone then Function.update terminal.files fd (some t.pos) else terminal.files
      return (⟨some t.dev, files⟩, ⟨t.ret, t.pos, t.bytes⟩)
  | _, _ => ⟨[], none⟩

/-- The call on a device that nobody else has: the first `open` makes it. -/
def Call.runPrivate (g : Globals) (terminal : Terminal) : Call → Traced Event (Terminal × Reply)
  | .scullCOpen _ fd fFlags supply =>
      match terminal.dev, supply 0 with
      | none, none => pure (terminal, ⟨-ENOMEM, 0, []⟩)
      | none, some _ => do
          let dev ← Store.scullOpen g (scullInitDev g .basic 0) fFlags
          return terminal.opened fd dev
      | some dev, _ => do
          let dev ← Store.scullOpen g dev fFlags
          return terminal.opened fd dev
  | .scullRead file offset count env =>
      terminal.transfer file.fd offset fun dev pos => Store.scullRead dev count pos env
  | .scullWrite file offset buff env =>
      terminal.transfer file.fd offset fun dev pos => Store.scullWrite g dev buff pos env
  | .scullCRelease file =>
      pure (⟨terminal.dev, Function.update terminal.files file.fd none⟩, ⟨0, 0, []⟩)

def PrivateStep (g : Globals) (terminal : Terminal) (done : Call × Reply) (after : Terminal) :
    Prop :=
  (done.1.runPrivate g terminal).result = some (after, done.2)

/-! ## What one terminal sees -/

def Call.key : Call → Option Nat
  | .scullCOpen tty _ _ _ => tty
  | .scullRead file _ _ _ => some file.key
  | .scullWrite file _ _ _ => some file.key
  | .scullCRelease file => some file.key

/-- The call with which of its allocations succeed, but not where. -/
def Call.bare : Call → Call
  | .scullCOpen tty fd fFlags supply => .scullCOpen tty fd fFlags supply.bare
  | .scullRead file offset count env => .scullRead file offset count env.bare
  | .scullWrite file offset buff env => .scullWrite file offset buff env.bare
  | .scullCRelease file => .scullCRelease file

def seenBy (k : Nat) (done : Call × Reply) : Option (Call × Reply) :=
  if done.1.key = some k then some (done.1.bare, done.2) else none

def seen (k : Nat) (labels : List (Call × Reply)) : List (Call × Reply) :=
  labels.filterMap (seenBy k)

def view (k : Nat) (s : Session) : Terminal :=
  ⟨(deviceOf s.list k).map ScullDev.bare, fun fd => (s.files ⟨k, fd⟩).map (·.fPos)⟩

structure Tidy (s : Session) : Prop where
  /-- `scull_c_list` holds at most one item per key. -/
  unique : (s.list.map (·.key)).Nodup
  files : ∀ file filp, s.files file = some filp → lookfor s.list file.key = some filp.privateData
  basic : ∀ key dev, deviceOf s.list key = some dev → dev.type = .basic

section Steps
variable {g : Globals} {s t : Session} {k : Nat} {done : Call × Reply}

theorem type_scullOpen {dev after : ScullDev} {fFlags : Nat}
    (h : (Store.scullOpen g dev fFlags).result = some after) : after.type = dev.type := by
  unfold Store.scullOpen at h
  split at h
  · rw [Store.scullTrim_returns g dev after h]
    rfl
  · cases h
    rfl

theorem tidy_init : Tidy .init := by
  refine ⟨List.nodup_nil, ?_, ?_⟩
  · intro file filp h
    cases h
  · intro key dev h
    cases h

theorem tidy_setDev (h : Tidy s) {key dev : Nat} (hkey : lookfor s.list key = some dev)
    {after : ScullDev} (hbasic : after.type = .basic) {files : File → Option OpenFile}
    (hfiles : ∀ file filp, files file = some filp →
      lookfor s.list file.key = some filp.privateData) :
    Tidy ⟨setDev s.list dev after, files⟩ := by
  refine ⟨?_, ?_, ?_⟩
  · rw [keys_setDev]
    exact h.unique
  · intro file filp hfile
    rw [lookfor_setDev]
    exact hfiles file filp hfile
  · intro k d hd
    rw [deviceOf_setDev hkey] at hd
    split at hd
    · cases hd
      exact hbasic
    · exact h.basic k d hd

theorem tidy_moved (h : Tidy s) {file : File} {filp : OpenFile} (hfile : s.files file = some filp)
    (offset : Option Int) {transfer : Transfer} (hbasic : transfer.dev.type = .basic) :
    Tidy (s.moved file filp offset transfer) := by
  apply tidy_setDev h (h.files file filp hfile) hbasic
  intro other filp' hother
  split at hother
  · by_cases hsame : other = file
    · subst hsame
      rw [Function.update_self] at hother
      cases hother
      exact h.files other filp hfile
    · rw [Function.update_of_ne hsame] at hother
      exact h.files other filp' hother
  · exact h.files other filp' hother

theorem files_opened {list : List ScullListitem} {files : File → Option OpenFile}
    (hfiles : ∀ file filp, files file = some filp → lookfor list file.key = some filp.privateData)
    {key fd p : Nat} (hkey : lookfor list key = some p) (file : File) (filp : OpenFile)
    (hfile : Function.update files ⟨key, fd⟩ (some ⟨p, 0⟩) file = some filp) :
    lookfor list file.key = some filp.privateData := by
  by_cases hsame : file = ⟨key, fd⟩
  · subst hsame
    rw [Function.update_self] at hfile
    cases hfile
    exact hkey
  · rw [Function.update_of_ne hsame] at hfile
    exact hfiles file filp hfile

theorem tidy_first (h : Tidy s) (lptr : ScullListitem) (hnew : lookfor s.list lptr.key = none)
    (hbasic : lptr.dev.type = .basic) (fd : Nat) :
    Tidy ⟨lptr :: s.list,
      Function.update s.files ⟨lptr.key, fd⟩ (some ⟨s.list.length, 0⟩)⟩ := by
  refine ⟨?_, ?_, ?_⟩
  · rw [List.map_cons, List.nodup_cons]
    exact ⟨lookfor_eq_none.mp hnew, h.unique⟩
  · apply files_opened
    · intro file filp hfile
      have hknown := h.files file filp hfile
      have hother : lptr.key ≠ file.key := by
        intro hsame
        rw [hsame, hknown] at hnew
        cases hnew
      rw [lookfor, if_neg hother, hknown]
    · rw [lookfor, if_pos rfl]
  · intro k d hd
    rw [deviceOf_cons] at hd
    split at hd
    · cases hd
      exact hbasic
    · exact h.basic k d hd

theorem item_basic (h : Tidy s) {file : File} {filp : OpenFile} (hfile : s.files file = some filp)
    {lptr : ScullListitem} (hitem : itemAt s.list filp.privateData = some lptr) :
    deviceOf s.list file.key = some lptr.dev ∧ lptr.dev.type = .basic := by
  obtain ⟨item, hitem', hdevice⟩ := deviceOf_item (h.files file filp hfile)
  rw [hitem] at hitem'
  cases hitem'
  exact ⟨hdevice, h.basic file.key lptr.dev hdevice⟩

theorem read_type {dev : ScullDev} {count : Nat} {pos : Int} {env : Env} {transfer : Transfer}
    (h : (Store.scullRead dev count pos env).result = some transfer) :
    transfer.dev.type = dev.type := by
  rw [(Store.scullRead_effect _ _ _ _ transfer h).1]

theorem write_type {dev : ScullDev} {buff : List Byte} {pos : Int} {env : Env}
    {transfer : Transfer} (h : (Store.scullWrite g dev buff pos env).result = some transfer) :
    transfer.dev.type = dev.type := by
  rw [(Store.scullWrite_effect _ _ _ _ _ transfer h).1]

theorem step_tidy (h : Tidy s) (hstep : Step g s done t) : Tidy t := by
  cases step_cases hstep with
  | noTerminal fd fFlags supply => exact h
  | noMemory key fd fFlags supply new failed => exact h
  | first key fd fFlags supply addr dev new allocated opened =>
    exact tidy_first h ⟨addr, dev, key⟩ new (type_scullOpen opened) fd
  | again key fd fFlags supply p before dev known device opened =>
    apply tidy_setDev h known ((type_scullOpen opened).trans (h.basic key before device))
    exact files_opened h.files known
  | read file offset count env filp lptr transfer found item returned =>
    exact tidy_moved h found offset ((read_type returned).trans (item_basic h found item).2)
  | write file offset buff env filp lptr transfer found item returned =>
    exact tidy_moved h found offset ((write_type returned).trans (item_basic h found item).2)
  | release file =>
    refine ⟨h.unique, ?_, h.basic⟩
    intro other filp hother
    simp only at hother
    by_cases hsame : other = file
    · subst hsame
      rw [Function.update_self] at hother
      cases hother
    · rw [Function.update_of_ne hsame] at hother
      exact h.files other filp hother

theorem run_tidy {labels : List (Call × Reply)} (run : Run (Step g) .init labels t) : Tidy t :=
  run.invariant (fun _ => Tidy) tidy_init fun _ _ _ _ _ h hstep => step_tidy h hstep

/-! ## The view of one step -/

theorem files_update_ne {files : File → Option OpenFile} (file : File) (hother : file.key ≠ k)
    (filp : Option OpenFile) (fd : Nat) :
    Function.update files file filp ⟨k, fd⟩ = files ⟨k, fd⟩ := by
  apply Function.update_of_ne
  rintro rfl
  exact hother rfl

theorem files_update_view (files : File → Option OpenFile) (fd : Nat)
    (filp : Option OpenFile) :
    (fun fd' => (Function.update files ⟨k, fd⟩ filp ⟨k, fd'⟩).map (·.fPos)) =
      Function.update (fun fd' => (files ⟨k, fd'⟩).map (·.fPos)) fd (filp.map (·.fPos)) := by
  funext fd'
  by_cases hsame : fd' = fd
  · subst hsame
    simp
  · have hother : (⟨k, fd'⟩ : File) ≠ ⟨k, fd⟩ := by
      intro h
      cases h
      exact hsame rfl
    simp [Function.update_of_ne hother, Function.update_of_ne hsame]

theorem view_moved (h : Tidy s) {file : File} {filp : OpenFile} (found : s.files file = some filp)
    (hother : file.key ≠ k) (offset : Option Int) (transfer : Transfer) :
    view k (s.moved file filp offset transfer) = view k s := by
  have hfiles (fd : Nat) : (s.moved file filp offset transfer).files ⟨k, fd⟩ = s.files ⟨k, fd⟩ := by
    unfold Session.moved
    cases offset with
    | none => exact files_update_ne _ hother _ fd
    | some pos => rfl
  have hdevice : deviceOf (s.moved file filp offset transfer).list k = deviceOf s.list k := by
    rw [Session.moved, deviceOf_setDev (h.files file filp found), if_neg (Ne.symm hother)]
  simp only [view, hfiles, hdevice]

/-- A call from another terminal changes nothing that terminal `k` sees. -/
theorem view_other (h : Tidy s) (hstep : Step g s done t) (hother : done.1.key ≠ some k) :
    view k t = view k s := by
  cases step_cases hstep with
  | noTerminal fd fFlags supply => rfl
  | noMemory key fd fFlags supply new failed => rfl
  | first key fd fFlags supply addr dev new allocated opened =>
    have hkey : k ≠ key := fun heq => hother (congrArg some heq.symm)
    simp [view, deviceOf_cons, if_neg hkey, files_update_ne ⟨key, fd⟩ (Ne.symm hkey)]
  | again key fd fFlags supply p before dev known device opened =>
    have hkey : k ≠ key := fun heq => hother (congrArg some heq.symm)
    simp [view, deviceOf_setDev known, if_neg hkey,
      files_update_ne ⟨key, fd⟩ (Ne.symm hkey)]
  | read file offset count env filp lptr transfer found item returned =>
    exact view_moved h found (fun heq => hother (congrArg some heq)) offset transfer
  | write file offset buff env filp lptr transfer found item returned =>
    exact view_moved h found (fun heq => hother (congrArg some heq)) offset transfer
  | release file =>
    have hkey : file.key ≠ k := fun heq => hother (congrArg some heq)
    simp [view, files_update_ne _ hkey]

theorem transfer_private (op bareOp : ScullDev → Int → Traced Event Transfer) (h : Tidy s)
    {fd : Nat} {filp : OpenFile} (found : s.files ⟨k, fd⟩ = some filp) {lptr : ScullListitem}
    (item : itemAt s.list filp.privateData = some lptr) {offset : Option Int}
    (hbare : Traced.Mirrors Transfer.bare (op lptr.dev (offset.getD filp.fPos))
      (bareOp lptr.dev.bare (offset.getD filp.fPos)))
    {transfer : Transfer} (returned : (op lptr.dev (offset.getD filp.fPos)).result = some transfer) :
    ((view k s).transfer fd offset bareOp).result =
      some (view k (s.moved ⟨k, fd⟩ filp offset transfer),
        ⟨transfer.ret, transfer.pos, transfer.bytes⟩) := by
  have hdevice := (item_basic h found item).1
  have hview : (view k s).files fd = some filp.fPos := by simp [view, found]
  have hdev : (view k s).dev = some lptr.dev.bare := by simp [view, hdevice]
  have hmoved : deviceOf (setDev s.list filp.privateData transfer.dev) k = some transfer.dev := by
    rw [deviceOf_setDev (h.files _ filp found), if_pos rfl]
  simp only [Terminal.transfer, hview, hdev, Traced.result_bind, hbare.ends returned]
  cases offset with
  | none =>
    simp only [view, Session.moved, hmoved, Option.isNone_none, if_true, files_update_view]
    rfl
  | some pos =>
    simp only [view, Session.moved, hmoved]
    rfl

theorem view_opened (s : Session) (fd p : Nat) {list : List ScullListitem} {dev : ScullDev}
    (h : deviceOf list k = some dev) :
    view k ⟨list, Function.update s.files ⟨k, fd⟩ (some ⟨p, 0⟩)⟩ =
      ((view k s).opened fd dev.bare).1 := by
  simp only [view, h, files_update_view]
  rfl

theorem blockSize_basic (g : Globals) {dev : ScullDev} (h : dev.type = .basic) :
    Store.blockSize g dev = Machine.uint64 dev.quantum := by
  simp [Store.blockSize, h]

theorem view_own (h : Tidy s) (hstep : Step g s done t) (hown : done.1.key = some k) :
    PrivateStep g (view k s) (done.1.bare, done.2) (view k t) := by
  unfold PrivateStep
  cases step_cases hstep with
  | noTerminal fd fFlags supply => cases hown
  | noMemory key fd fFlags supply new failed =>
    cases hown
    simp [Call.runPrivate, Call.bare, view, deviceOf, new, Store.Supply.bare, failed]
  | first key fd fFlags supply addr dev new allocated opened =>
    cases hown
    have hbare := (Store.scullOpen_bare g (scullInitDev g .basic 0) fFlags).ends opened
    have hsupply : supply.bare 0 = some (0 : Nat) := by simp [Store.Supply.bare, allocated]
    have hnew : (view k s).dev = none := by simp [view, deviceOf, new]
    have hview := view_opened s fd s.list.length
      (show deviceOf (⟨addr, dev, k⟩ :: s.list) k = some dev by rw [deviceOf_cons, if_pos rfl])
    simp only [Call.runPrivate, Call.bare, hnew, hsupply, Traced.result_bind, hview]
    rw [show scullInitDev g .basic 0 = (scullInitDev g .basic 0).bare from rfl, hbare]
    rfl
  | again key fd fFlags supply p before dev known device opened =>
    cases hown
    have hknown : (view k s).dev = some before.bare := by simp [view, device]
    have hview := view_opened s fd p
      (show deviceOf (setDev s.list p dev) k = some dev by rw [deviceOf_setDev known, if_pos rfl])
    simp only [Call.runPrivate, Call.bare, hknown, Traced.result_bind, hview,
      (Store.scullOpen_bare g before fFlags).ends opened]
    rfl
  | read file offset count env filp lptr transfer found item returned =>
    cases hown
    exact transfer_private (fun dev pos => Store.scullRead dev count pos env)
      (fun dev pos => Store.scullRead dev count pos env.bare) h found item
      (Store.scullRead_bare _ _ _ _) returned
  | write file offset buff env filp lptr transfer found item returned =>
    cases hown
    have hbasic := (item_basic h found item).2
    exact transfer_private (fun dev pos => Store.scullWrite g dev buff pos env)
      (fun dev pos => Store.scullWrite g dev buff pos env.bare) h found item
      (Store.scullWrite_bare g (blockSize_basic g hbasic) _ _ _) returned
  | release file =>
    cases hown
    simp only [Call.runPrivate, Call.bare, view, files_update_view]
    rfl

theorem lookfor_stays {key dev : Nat} (hkey : lookfor s.list key = some dev)
    (hstep : Step g s done t) : lookfor t.list key = some dev := by
  cases step_cases hstep with
  | noTerminal fd fFlags supply => exact hkey
  | noMemory key' fd fFlags supply new failed => exact hkey
  | first key' fd fFlags supply addr after new allocated opened =>
    have hother : key' ≠ key := by
      rintro rfl
      rw [hkey] at new
      cases new
    rw [lookfor, if_neg hother, hkey]
  | again key' fd fFlags supply p before after known device opened =>
    rw [lookfor_setDev, hkey]
  | read file offset count env filp lptr transfer found item returned =>
    rw [Session.moved, lookfor_setDev, hkey]
  | write file offset buff env filp lptr transfer found item returned =>
    rw [Session.moved, lookfor_setDev, hkey]
  | release file => exact hkey

end Steps

/-! ## Runs -/

section Runs
variable {g : Globals} {s t : Session} {labels labels' : List (Call × Reply)}

theorem seen_snoc (k : Nat) (labels : List (Call × Reply)) (done : Call × Reply) :
    seen k (labels ++ [done]) = seen k labels ++ (seenBy k done).toList := by
  simp [seen, List.filterMap_append, List.filterMap_cons]
  cases seenBy k done <;> rfl

/-- The calls of one terminal are a run of its private device. -/
theorem view_run (k : Nat) (run : Run (Step g) .init labels s) :
    Run (PrivateStep g) (view k .init) (seen k labels) (view k s) := by
  induction run with
  | nil => exact .nil
  | @snoc labels s done t earlier hstep ih =>
    have h := run_tidy earlier
    rw [seen_snoc]
    by_cases hkey : done.1.key = some k
    · rw [seenBy, if_pos hkey]
      exact ih.snoc (view_own h hstep hkey)
    · rw [seenBy, if_neg hkey, view_other h hstep hkey, Option.toList_none, List.append_nil]
      exact ih

theorem private_answered (g : Globals) (terminal : Terminal) (call : Call) (reply : Reply)
    (after : Terminal) (reply' : Reply) (after' : Terminal)
    (h : PrivateStep g terminal (call, reply) after)
    (h' : PrivateStep g terminal (call, reply') after') : reply = reply' ∧ after = after' := by
  unfold PrivateStep at h h'
  rw [h] at h'
  cases h'
  exact ⟨rfl, rfl⟩

def callsOf (k : Nat) (labels : List (Call × Reply)) : List Call := (seen k labels).map Prod.fst

def repliesOf (k : Nat) (labels : List (Call × Reply)) : List Reply :=
  (seen k labels).map Prod.snd

/-- What an `open` from terminal `key` does once the terminal has the device `dev`. -/
structure Reopens (g : Globals) (s : Session) (key dev : Nat) : Prop where
  keeps : ∀ fd fFlags supply, fFlags &&& O_ACCMODE ≠ O_WRONLY →
    Step g s (.scullCOpen (some key) fd fFlags supply, ⟨0, 0, []⟩)
      ⟨s.list, Function.update s.files ⟨key, fd⟩ (some ⟨dev, 0⟩)⟩
  trims : ∀ fd fFlags supply reply t, fFlags &&& O_ACCMODE = O_WRONLY →
    Step g s (.scullCOpen (some key) fd fFlags supply, reply) t →
      reply.ret = 0 ∧ t.files = Function.update s.files ⟨key, fd⟩ (some ⟨dev, 0⟩) ∧
      ∃ lptr, itemAt s.list dev = some lptr ∧ t.list = setDev s.list dev (trimmed g lptr.dev)

structure Isolated (g : Globals) (labels : List (Call × Reply)) (s : Session) : Prop where
  /-- No terminal can tell this run from one with the same calls of its own. -/
  apart : ∀ k labels' t, Run (Step g) .init labels' t → callsOf k labels = callsOf k labels' →
    repliesOf k labels = repliesOf k labels'
  unique : (s.list.map (·.key)).Nodup
  known : ∀ key fd fFlags supply reply,
    (Call.scullCOpen (some key) fd fFlags supply, reply) ∈ labels → reply.ret = 0 →
      ∃ dev, lookfor s.list key = some dev
  again : ∀ key dev, lookfor s.list key = some dev → ∀ more t, Run (Step g) s more t →
    Reopens g t key dev
  failed : ∀ tty fd fFlags supply reply t,
    Step g s (.scullCOpen tty fd fFlags supply, reply) t → reply.ret < 0 → t = s

theorem run_apart (k : Nat) (run : Run (Step g) .init labels s) (run' : Run (Step g) .init labels' t)
    (h : callsOf k labels = callsOf k labels') : repliesOf k labels = repliesOf k labels' := by
  have hseen := ((view_run k run).same_replies (private_answered g) (view_run k run') h).1
  unfold repliesOf
  rw [hseen]

theorem run_known (run : Run (Step g) .init labels s) {key fd fFlags : Nat} {supply : Supply}
    {reply : Reply} (hopen : (Call.scullCOpen (some key) fd fFlags supply, reply) ∈ labels)
    (hret : reply.ret = 0) : ∃ dev, lookfor s.list key = some dev := by
  induction run with
  | nil => cases hopen
  | @snoc labels s done t earlier hstep ih =>
    rcases List.mem_append.mp hopen with hbefore | hlast
    · obtain ⟨dev, hdev⟩ := ih hbefore
      exact ⟨dev, lookfor_stays hdev hstep⟩
    · have hdone := List.mem_singleton.mp hlast
      subst hdone
      cases step_cases hstep with
      | noMemory _ _ _ _ new failed => exact absurd hret (by decide)
      | first _ _ _ _ addr dev new allocated opened =>
        exact ⟨s.list.length, by rw [lookfor, if_pos rfl]⟩
      | again _ _ _ _ p before dev known device opened =>
        exact ⟨p, by rw [lookfor_setDev, known]⟩

theorem reopens {key dev : Nat} (hkey : lookfor s.list key = some dev) : Reopens g s key dev := by
  obtain ⟨lptr, hitem, hdevice⟩ := deviceOf_item hkey
  refine ⟨?_, ?_⟩
  · intro fd fFlags supply hflags
    have hopen : scullCOpen g s.list (some key) fFlags supply = pure (0, some dev, s.list) := by
      simp [scullCOpen, scullCLookforDevice, hkey, hflags]
    simp only [Step, Call.run, hopen]
    rfl
  · intro fd fFlags supply reply t hflags hstep
    cases step_cases hstep with
    | noMemory _ _ _ _ new failed =>
      rw [hkey] at new
      cases new
    | first _ _ _ _ addr after new allocated opened =>
      rw [hkey] at new
      cases new
    | again _ _ _ _ p before after known device opened =>
      rw [hkey] at known
      cases known
      rw [hdevice] at device
      cases device
      rw [Store.scullOpen, if_pos hflags] at opened
      cases Store.scullTrim_returns g lptr.dev after opened
      exact ⟨rfl, rfl, lptr, hitem, rfl⟩

theorem open_failed {tty : Option Nat} {fd fFlags : Nat} {supply : Supply} {reply : Reply}
    (hstep : Step g s (.scullCOpen tty fd fFlags supply, reply) t) (hret : reply.ret < 0) :
    t = s := by
  cases step_cases hstep with
  | noTerminal => rfl
  | noMemory => rfl
  | first => exact absurd hret (by decide)
  | again => exact absurd hret (by decide)

/-- The terminals of `scull_copy` do not share anything. -/
theorem run_isolated (run : Run (Step g) .init labels s) : Isolated g labels s := by
  refine ⟨?_, (run_tidy run).unique, ?_, ?_, ?_⟩
  · intro k labels' t run' h
    exact run_apart k run run' h
  · intro key fd fFlags supply reply hopen hret
    exact run_known run hopen hret
  · intro key dev hkey more t later
    apply reopens
    exact later.invariant (fun _ t => lookfor t.list key = some dev) hkey
      fun _ _ _ _ _ hstays hstep => lookfor_stays hstays hstep
  · intro tty fd fFlags supply reply t hstep hret
    exact open_failed hstep hret

end Runs

/-! ## Two terminals -/

def small : Globals := ⟨4, 2, 64, 4096⟩

/-- Terminal 5 stores a byte and terminal 6 opens the device. -/
def storing : List Call :=
  [.scullCOpen (some 5) 0 Store.O_RDWR some, .scullWrite ⟨5, 0⟩ none [7] .calm,
    .scullCOpen (some 6) 0 Store.O_RDWR some]

def play (s : Session) (call : Call) : Option Session := (call.run small s).result.map Prod.fst

theorem run_played {calls : List Call} {s t : Session} (h : calls.foldlM play s = some t) :
    ∃ labels, labels.map Prod.fst = calls ∧ Run (Step small) s labels t := by
  apply Run.answer
  apply (Run.of_foldlM h).mono
  intro s call t hplay
  obtain ⟨⟨after, reply⟩, hrun, rfl⟩ := Option.map_eq_some_iff.mp hplay
  exact ⟨reply, hrun⟩

theorem storing_stored : ∃ s, storing.foldlM play .init = some s ∧
    deviceOf s.list 5 = some (Store.holding 7 1).dev :=
  Option.map_eq_some_iff.mp (show (storing.foldlM play .init).map (fun s => deviceOf s.list 5) =
    some (some (Store.holding 7 1).dev) by decide +kernel)

theorem reopen_trims :
    ∃ labels s reply t, Run (Step small) .init labels s ∧
      Step small s (.scullCOpen (some 5) 1 O_WRONLY some, reply) t ∧ reply.ret = 0 ∧
      (deviceOf s.list 5).map (Store.byteAt · 0) = some 7 ∧
      (deviceOf t.list 5).map (Store.byteAt · 0) = some 0 := by
  obtain ⟨s, hplayed, hstored⟩ := storing_stored
  obtain ⟨labels, -, run⟩ := run_played hplayed
  have hplay : ((storing.foldlM play .init).bind fun s =>
      (Call.run small s (.scullCOpen (some 5) 1 O_WRONLY some)).result).map
      (fun r => (r.2, deviceOf r.1.list 5)) =
        some (⟨0, 0, []⟩, some (scullInitDev small .basic 0)) := by decide +kernel
  obtain ⟨⟨t, reply⟩, hstep, hfacts⟩ := Option.map_eq_some_iff.mp hplay
  obtain ⟨hreply, htrimmed⟩ := Prod.mk.inj hfacts
  rw [hplayed, Option.bind_some] at hstep
  refine ⟨labels, s, reply, t, run, hstep, ?_, ?_, ?_⟩
  · rw [show reply = ⟨0, 0, []⟩ from hreply]
  · rw [hstored]
    rfl
  · rw [show deviceOf t.list 5 = _ from htrimmed]
    rfl

theorem run_isolated_storing :
    ∃ labels s, labels.map Prod.fst = storing ∧ Isolated small labels s := by
  obtain ⟨s, hplayed, -⟩ := storing_stored
  obtain ⟨labels, hcalls, run⟩ := run_played hplayed
  exact ⟨labels, s, hcalls, run_isolated run⟩

end MyDrivers.Access.Copy
