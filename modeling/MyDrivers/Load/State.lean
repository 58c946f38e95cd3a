import MyDrivers.Load.Init
import MyDrivers.Pipe.Handles

/-! The variables of the module `scull` once it is loaded, and what its devices hold. -/
namespace MyDrivers.Load
open Lib
open Store (Globals ScullDev Object Setting reachable Tidy Orderly)
open Access (Variant)
open Access.Copy (ScullListitem zeroedDev deviceOf lookfor itemAt)

/-- The variables of the module, with the files that are open on its devices. -/
structure State where
  globals : Globals
  main : MainVars
  pipes : PipeVars
  accessDevno : Nat → Nat
  scullSDev : ScullDev
  scullU : Access.Session
  scullW : Access.Session
  scullCDev : ScullDev
  scullCList : List ScullListitem
  scullCFiles : List Access.Copy.File

/-- The module after `scull_init`: static variables that were not set are zero. -/
def State.loaded (p : Parameters) (main : MainVars) (subs : Option (PipeVars × AccessVars)) :
    State :=
  let adev := subs.elim (fun _ => zeroedDev) (·.2.adev)
  { globals := p.globals
    main := main
    pipes := subs.elim ⟨0, .null⟩ (·.1)
    accessDevno := subs.elim (fun _ => 0) (·.2.scullAccessDevno)
    scullSDev := adev 0
    scullU := .init (adev 1)
    scullW := .init (adev 2)
    scullCDev := adev 3
    scullCList := []
    scullCFiles := [] }

def State.guarded (s : State) : Variant → Access.Session
  | .uid => s.scullU
  | .wuid => s.scullW

def State.setGuarded (s : State) (variant : Variant) (session : Access.Session) : State :=
  match variant with
  | .uid => { s with scullU := session }
  | .wuid => { s with scullW := session }

/-- A device that stores; those of `scull_copy` are named by their terminals. -/
inductive Place where
  | main (i : Nat)
  | single
  | guarded (variant : Variant)
  | terminal (key : Nat)
  deriving DecidableEq, Repr

def State.dev? (s : State) : Place → Option ScullDev
  | .main i =>
      match s.main.scullDevices with
      | .live _ devs => devs[i]?
      | _ => none
  | .single => some s.scullSDev
  | .guarded variant => some (s.guarded variant).guard.dev
  | .terminal key => deviceOf s.scullCList key

def State.setDev (s : State) (place : Place) (dev : ScullDev) : State :=
  match place with
  | .main i =>
      match s.main.scullDevices with
      | .live array devs =>
          { s with main := { s.main with scullDevices := .live array (devs.set i dev) } }
      | _ => s
  | .single => { s with scullSDev := dev }
  | .guarded variant =>
      let session := s.guarded variant
      s.setGuarded variant { session with guard := { session.guard with dev := dev } }
  | .terminal key =>
      match lookfor s.scullCList key with
      | some item => { s with scullCList := Access.Copy.setDev s.scullCList item dev }
      | none => s

/-! ## The objects of one component -/

def Fits (quantum qset : Int) : Prop := Setting quantum ∧ Setting qset

structure Fine (dev : ScullDev) : Prop where
  settings : Fits dev.quantum dev.qset
  tidy : Tidy dev dev.data

theorem orderly_of_fine {g : Globals} {dev : ScullDev} (hset : g.Set) (h : Fine dev) :
    Orderly Fits ⟨g, dev⟩ := ⟨hset, h.settings, h.tidy⟩

theorem fine_of_orderly {s : Store.Session} (h : Orderly Fits s) : Fine s.dev := ⟨h.dev, h.tidy⟩

theorem fits_setting (quantum qset : Int) (h : Fits quantum qset) : Setting qset := h.2

/-! ## scull_c_list -/

section Copy
open Access.Copy (setDev)
variable {list : List ScullListitem}

def listed : List ScullListitem → Multiset Object
  | [] => 0
  | lptr :: next => (lptr.addr, .kmalloc) ::ₘ (reachable lptr.dev.data + listed next)

theorem setDev_listed {dev : Nat} {lptr : ScullListitem} (hitem : itemAt list dev = some lptr) :
    ∃ rest, listed list = reachable lptr.dev.data + rest ∧
      ∀ after, listed (setDev list dev after) = reachable after.data + rest := by
  induction list with
  | nil => cases hitem
  | cons head next ih =>
    unfold itemAt at hitem
    split at hitem
    · next hhere =>
      cases hitem
      refine ⟨(lptr.addr, .kmalloc) ::ₘ listed next, ?_, fun after => ?_⟩
      · rw [Multiset.add_cons]
        rfl
      · rw [setDev, if_pos hhere, Multiset.add_cons]
        rfl
    · next haway =>
      obtain ⟨rest, hlist, hset⟩ := ih hitem
      refine ⟨(head.addr, .kmalloc) ::ₘ (reachable head.dev.data + rest), ?_, fun after => ?_⟩
      · rw [listed, hlist, Multiset.add_cons, add_left_comm]
      · rw [setDev, if_neg haway, listed, hset, Multiset.add_cons, add_left_comm]

theorem itemAt_mem {dev : Nat} {lptr : ScullListitem} (hitem : itemAt list dev = some lptr) :
    lptr ∈ list := by
  induction list with
  | nil => cases hitem
  | cons head next ih =>
    unfold itemAt at hitem
    split at hitem
    · cases hitem
      exact List.mem_cons_self ..
    · exact List.mem_cons_of_mem _ (ih hitem)

theorem mem_setDev {dev : Nat} {after : ScullDev} {lptr : ScullListitem}
    (h : lptr ∈ setDev list dev after) : lptr.dev = after ∨ lptr ∈ list := by
  induction list with
  | nil => cases h
  | cons head next ih =>
    unfold setDev at h
    split at h
    · rcases List.mem_cons.mp h with rfl | h
      · exact .inl rfl
      · exact .inr (List.mem_cons_of_mem _ h)
    · rcases List.mem_cons.mp h with rfl | h
      · exact .inr (List.mem_cons_self ..)
      · exact (ih h).imp_right (List.mem_cons_of_mem _)

def FineList (list : List ScullListitem) : Prop := ∀ lptr ∈ list, Fine lptr.dev

end Copy

/-! ## The module -/

def buffers (session : Pipe.Session) : Multiset Resource :=
  ((Pipe.owned session.pipe.dev.buffer).map Resource.buffer : List Resource)

def Pointer.sum {α κ : Type} (f : α → Multiset κ) : Pointer (List α) → Multiset κ
  | .null => 0
  | .dangling _ => 0
  | .live _ devs => (devs.map f).sum

def State.stored (s : State) : Multiset Object :=
  s.main.scullDevices.sum (fun dev => reachable dev.data) + reachable s.scullSDev.data +
    reachable s.scullU.guard.dev.data + reachable s.scullW.guard.dev.data +
    reachable s.scullCDev.data + listed s.scullCList

/-- Everything that was acquired in use and is still held. -/
def State.owned (s : State) : Multiset Resource :=
  s.stored.map .object + s.pipes.scullPDevices.sum buffers

structure Kept (s : State) : Prop where
  globals : s.globals.Set
  devices : ∀ array devs, s.main.scullDevices = .live array devs → ∀ dev ∈ devs, Fine dev
  single : Fine s.scullSDev
  uid : Fine s.scullU.guard.dev
  wuid : Fine s.scullW.guard.dev
  placeholder : Fine s.scullCDev
  listed : FineList s.scullCList

theorem sum_set {α κ : Type} (f : α → Multiset κ) {l : List α} {i : Nat} {a : α}
    (h : l[i]? = some a) :
    ∃ rest, (l.map f).sum = f a + rest ∧ ∀ b, ((l.set i b).map f).sum = f b + rest := by
  induction l generalizing i with
  | nil => simp at h
  | cons head tail ih =>
    cases i with
    | zero =>
      cases h
      exact ⟨(tail.map f).sum, by simp, fun b => by simp⟩
    | succ i =>
      obtain ⟨rest, hsum, hset⟩ := ih (by simpa using h)
      refine ⟨f head + rest, ?_, fun b => ?_⟩
      · rw [List.map_cons, List.sum_cons, hsum, add_left_comm]
      · rw [List.set_cons_succ, List.map_cons, List.sum_cons, hset, add_left_comm]

/-! ## One device in the place of another -/

section Places
variable {s : State} {place : Place} {dev : ScullDev}

theorem dev?_main {i : Nat} (h : s.dev? (.main i) = some dev) :
    ∃ array devs, s.main.scullDevices = .live array devs ∧ devs[i]? = some dev := by
  unfold State.dev? at h
  cases hpointer : s.main.scullDevices with
  | null => simp [hpointer] at h
  | dangling array => simp [hpointer] at h
  | live array devs => exact ⟨array, devs, rfl, by simpa [hpointer] using h⟩

theorem dev?_terminal {key : Nat} (h : s.dev? (.terminal key) = some dev) :
    ∃ item lptr, lookfor s.scullCList key = some item ∧
      Access.Copy.itemAt s.scullCList item = some lptr ∧ lptr.dev = dev := by
  cases hlookup : lookfor s.scullCList key with
  | none => simp [State.dev?, deviceOf, hlookup] at h
  | some item =>
    obtain ⟨lptr, hitem, hdevice⟩ := Access.Copy.deviceOf_item hlookup
    exact ⟨item, lptr, rfl, hitem, Option.some.inj (hdevice.symm.trans h)⟩

theorem stored_setDev (h : s.dev? place = some dev) :
    ∃ rest, s.stored = reachable dev.data + rest ∧
      ∀ after, (s.setDev place after).stored = reachable after.data + rest := by
  cases place with
  | main i =>
    obtain ⟨array, devs, hpointer, hdev⟩ := dev?_main h
    obtain ⟨rest, hsum, hset⟩ := sum_set (fun dev => reachable dev.data) hdev
    refine ⟨rest + reachable s.scullSDev.data + reachable s.scullU.guard.dev.data +
      reachable s.scullW.guard.dev.data + reachable s.scullCDev.data + listed s.scullCList, ?_, ?_⟩
    · simp only [State.stored, hpointer, Pointer.sum, hsum, add_assoc]
    · intro after
      simp only [State.stored, State.setDev, hpointer, Pointer.sum, hset, add_assoc]
  | single =>
    cases h
    refine ⟨s.main.scullDevices.sum (fun dev => reachable dev.data) +
      reachable s.scullU.guard.dev.data + reachable s.scullW.guard.dev.data +
      reachable s.scullCDev.data + listed s.scullCList, ?_, fun after => ?_⟩
    · rw [State.stored]
      abel
    · simp only [State.stored, State.setDev]
      abel
  | guarded variant =>
    cases h
    refine ⟨s.main.scullDevices.sum (fun dev => reachable dev.data) + reachable s.scullSDev.data +
      (match variant with
        | .uid => reachable s.scullW.guard.dev.data
        | .wuid => reachable s.scullU.guard.dev.data) +
      reachable s.scullCDev.data + listed s.scullCList, ?_, fun after => ?_⟩
    · cases variant <;> simp only [State.stored, State.guarded] <;> abel
    · cases variant <;> simp only [State.stored, State.setDev, State.setGuarded, State.guarded] <;> abel
  | terminal key =>
    obtain ⟨item, lptr, hlookup, hitem, rfl⟩ := dev?_terminal h
    obtain ⟨rest, hlist, hset⟩ := setDev_listed hitem
    refine ⟨s.main.scullDevices.sum (fun dev => reachable dev.data) + reachable s.scullSDev.data +
      reachable s.scullU.guard.dev.data + reachable s.scullW.guard.dev.data +
      reachable s.scullCDev.data + rest, ?_, fun after => ?_⟩
    · rw [State.stored, hlist]
      abel
    · simp only [State.stored, State.setDev, hlookup, hset]
      abel

theorem kept_dev (h : Kept s) (hdev : s.dev? place = some dev) : Fine dev := by
  cases place with
  | main i =>
    obtain ⟨array, devs, hpointer, hdev⟩ := dev?_main hdev
    exact h.devices array devs hpointer dev (List.mem_of_getElem? hdev)
  | single =>
    cases hdev
    exact h.single
  | guarded variant =>
    cases hdev
    cases variant with
    | uid => exact h.uid
    | wuid => exact h.wuid
  | terminal key =>
    obtain ⟨item, lptr, hlookup, hitem, rfl⟩ := dev?_terminal hdev
    exact h.listed lptr (itemAt_mem hitem)

theorem kept_setDev (h : Kept s) (hfine : Fine dev) (place : Place) : Kept (s.setDev place dev) := by
  cases place with
  | main i =>
    simp only [State.setDev]
    cases hpointer : s.main.scullDevices with
    | null => exact h
    | dangling array => exact h
    | live array devs =>
      refine ⟨h.globals, ?_, h.single, h.uid, h.wuid, h.placeholder, h.listed⟩
      rintro _ _ ⟨⟩ dev' hdev'
      rcases List.mem_or_eq_of_mem_set hdev' with hold | rfl
      · exact h.devices array devs hpointer dev' hold
      · exact hfine
  | single => exact ⟨h.globals, h.devices, hfine, h.uid, h.wuid, h.placeholder, h.listed⟩
  | guarded variant =>
    cases variant with
    | uid => exact ⟨h.globals, h.devices, h.single, hfine, h.wuid, h.placeholder, h.listed⟩
    | wuid => exact ⟨h.globals, h.devices, h.single, h.uid, hfine, h.placeholder, h.listed⟩
  | terminal key =>
    simp only [State.setDev]
    cases hlookup : lookfor s.scullCList key with
    | none => exact h
    | some item =>
      refine ⟨h.globals, h.devices, h.single, h.uid, h.wuid, h.placeholder, ?_⟩
      intro lptr hlptr
      rcases mem_setDev hlptr with hdev | hold
      · rw [hdev]
        exact hfine
      · exact h.listed lptr hold

@[simp] theorem pipes_setDev (s : State) (place : Place) (dev : ScullDev) :
    (s.setDev place dev).pipes = s.pipes := by
  cases place with
  | main i =>
    simp only [State.setDev]
    split <;> rfl
  | single => rfl
  | guarded variant => cases variant <;> rfl
  | terminal key =>
    simp only [State.setDev]
    split <;> rfl

theorem dev?_setDev {other : Place} (haway : other ≠ place) (after : ScullDev) :
    (s.setDev place after).dev? other = s.dev? other := by
  cases place with
  | main i =>
    simp only [State.setDev]
    cases hpointer : s.main.scullDevices with
    | null => rfl
    | dangling array => rfl
    | live array devs =>
      cases other with
      | main j =>
        have hij : i ≠ j := fun h => haway (h ▸ rfl)
        simp [State.dev?, hpointer, List.getElem?_set_ne hij]
      | single => rfl
      | guarded variant => rfl
      | terminal key => rfl
  | single =>
    cases other with
    | single => exact absurd rfl haway
    | main i => rfl
    | guarded variant => rfl
    | terminal key => rfl
  | guarded variant =>
    cases other with
    | guarded variant' => cases variant <;> cases variant' <;> first | rfl | exact absurd rfl haway
    | main i => cases variant <;> rfl
    | single => cases variant <;> rfl
    | terminal key => cases variant <;> rfl
  | terminal key =>
    simp only [State.setDev]
    cases hlookup : lookfor s.scullCList key with
    | none => rfl
    | some item =>
      cases other with
      | terminal k =>
        have hk : k ≠ key := fun h => haway (h ▸ rfl)
        exact (Access.Copy.deviceOf_setDev hlookup after k).trans (if_neg hk)
      | main i => rfl
      | single => rfl
      | guarded variant => rfl

theorem dev?_setGuarded {variant : Variant} {session : Access.Session}
    (h : session.guard.dev = (s.guarded variant).guard.dev) (place : Place) :
    (s.setGuarded variant session).dev? place = s.dev? place := by
  cases place with
  | guarded other =>
    cases variant <;> cases other <;> first | rfl | exact congrArg some h
  | main i => cases variant <;> rfl
  | single => cases variant <;> rfl
  | terminal key => cases variant <;> rfl

end Places

/-! ## What only loading and unloading write -/

def Pointer.extent {α : Type} : Pointer (List α) → Pointer Nat
  | .null => .null
  | .dangling addr => .dangling addr
  | .live addr devs => .live addr devs.length

def State.layout (s : State) : (Nat × Nat × Pointer Nat) × (Nat × Pointer Nat) × (Nat → Nat) :=
  ((s.main.scullMajor, s.main.scullMinor, s.main.scullDevices.extent),
    (s.pipes.scullPDevno, s.pipes.scullPDevices.extent), s.accessDevno)

theorem layout_setGuarded (s : State) (variant : Variant) (session : Access.Session) :
    (s.setGuarded variant session).layout = s.layout := by
  cases variant <;> rfl

theorem layout_setDev (s : State) (place : Place) (dev : ScullDev) :
    (s.setDev place dev).layout = s.layout := by
  cases place with
  | main i =>
    simp only [State.setDev]
    cases hpointer : s.main.scullDevices with
    | null => rfl
    | dangling array => rfl
    | live array devs => simp [State.layout, Pointer.extent, hpointer]
  | single => rfl
  | guarded variant => exact layout_setGuarded s variant _
  | terminal key =>
    simp only [State.setDev]
    split <;> rfl

end MyDrivers.Load
