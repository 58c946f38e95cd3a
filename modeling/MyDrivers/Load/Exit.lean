import MyDrivers.Load.Failure
import MyDrivers.Load.Use

/-! Unloading the module `scull`: what `scull_exit` gives back, whatever it finds. -/
namespace MyDrivers.Load
open Lib
open Store (Addr Globals ScullDev Object reachable Tidy trimmed)
open Access.Copy (ScullListitem)

/-! ## scull_exit -/

/-- The elements that a loop to `count` looks at, if the array is there. -/
def elements {α : Type} (pointer : Pointer (List α)) (count : Nat) : Booking (Addr × List α) :=
  match pointer with
  | .live array devs => pure (array, devs)
  | .null | .dangling _ => if count = 0 then pure (0, []) else ⟨[], none⟩

/-- `kfree` of an array; a pointer to freed memory is handed to it all the same. -/
def kfreeArray {α : Type} : Pointer α → Booking Unit
  | .null => pure ()
  | .dangling array => release (.array array)
  | .live array _ => release (.array array)

def exitLoop (g : Globals) (array : Addr) : Nat → List ScullDev → Booking Unit
  | _, [] => pure ()
  | i, dev :: rest => do
      let _ ← fromStore (Store.scullTrim g dev)
      release (.cdev array i)
      exitLoop g array (i + 1) rest

def pipeLoop (array : Addr) : Nat → List Pipe.Session → Booking Unit
  | _, [] => pure ()
  | i, dev :: rest => do
      release (.cdev array i)
      if dev.pipe.dev.buffer ≠ 0 then release (.buffer dev.pipe.dev.buffer) else pure ()
      pipeLoop array (i + 1) rest

def scullPCleanup (p : Parameters) (s : State) : Booking Unit := do
  let (array, devs) ← elements s.pipes.scullPDevices p.scullPNrDevs
  pipeLoop array 0 devs
  release (.region s.pipes.scullPDevno p.scullPNrDevs)
  kfreeArray s.pipes.scullPDevices

def State.adev (s : State) : Nat → ScullDev
  | 0 => s.scullSDev
  | 1 => s.scullU.guard.dev
  | 2 => s.scullW.guard.dev
  | _ => s.scullCDev

def accessCleanupLoop (s : State) : List Nat → Booking Unit
  | [] => pure ()
  | i :: rest => do
      release (.accessCdev i)
      let _ ← fromStore (Store.scullTrim s.globals (s.adev i))
      release (.region (s.accessDevno i) 1)
      accessCleanupLoop s rest

/-- The items are trimmed; none is freed. -/
def trimList (g : Globals) : List ScullListitem → Booking Unit
  | [] => pure ()
  | lptr :: next => do
      let _ ← fromStore (Store.scullTrim g lptr.dev)
      trimList g next

def scullAccessCleanup (s : State) : Booking Unit := do
  accessCleanupLoop s (List.range scullAccessNrDevs)
  trimList s.globals s.scullCList

def scullExit (p : Parameters) (s : State) : Booking Unit := do
  let (array, devs) ← elements s.main.scullDevices p.scullNrDevs
  exitLoop s.globals array 0 devs
  release (.region (MKDEV s.main.scullMajor s.main.scullMinor) p.scullNrDevs)
  kfreeArray s.main.scullDevices
  scullPCleanup p s
  scullAccessCleanup s

/-! ## What the loops give back -/

section Loops
variable {rest : Multiset Resource}

theorem trim_settles {g : Globals} {dev : ScullDev} (h : Fine dev) :
    (fromStore (Store.scullTrim g dev)).Settles some ((reachable dev.data).map .object + rest)
      (trimmed g dev) rest := by
  obtain ⟨_, hsettles, own, rfl, rfl, -⟩ := Traced.Settles.of_accounts
    ((Store.scullTrim_accounts g h.tidy).relabel object_injective)
    (Store.scullTrim_ends g h.tidy)
  have hframed := hsettles.frame rest
  rw [Multiset.map_zero, zero_add] at hframed
  exact hframed

theorem cdevs_range' (array : Addr) (i n : Nat) :
    cdevs array (List.range' i (n + 1)) = .cdev array i ::ₘ cdevs array (List.range' (i + 1) n) := by
  rw [List.range'_succ, cdevs, List.map_cons, ← Multiset.cons_coe]
  rfl

theorem exitLoop_settles {g : Globals} (array : Addr) {devs : List ScullDev}
    (h : ∀ dev ∈ devs, Fine dev) (i : Nat) :
    (exitLoop g array i devs).Settles some
      ((devs.map fun dev => reachable dev.data).sum.map .object +
        (cdevs array (List.range' i devs.length) + rest)) () rest := by
  induction devs generalizing i with
  | nil =>
    simp only [List.map_nil, List.sum_nil, Multiset.map_zero, List.length_nil, List.range'_zero,
      cdevs, Multiset.coe_nil, zero_add]
    exact .pure ()
  | cons dev devs ih =>
    have hheld : ((dev :: devs).map fun dev => reachable dev.data).sum.map Resource.object +
        (cdevs array (List.range' i (dev :: devs).length) + rest) =
        (reachable dev.data).map .object + .cdev array i ::ₘ
          ((devs.map fun dev => reachable dev.data).sum.map .object +
            (cdevs array (List.range' (i + 1) devs.length) + rest)) := by
      rw [List.length_cons, cdevs_range', List.map_cons, List.sum_cons, Multiset.map_add,
        Multiset.cons_add, Multiset.add_cons, Multiset.add_cons, add_assoc]
    rw [hheld]
    exact .bind (trim_settles (h dev (List.mem_cons_self ..))) (.bind (release_settles _)
      (ih (fun dev hdev => h dev (List.mem_cons_of_mem _ hdev)) (i + 1)))

theorem pipeLoop_settles (array : Addr) (devs : List Pipe.Session) (i : Nat) :
    (pipeLoop array i devs).Settles some
      ((devs.map buffers).sum + (cdevs array (List.range' i devs.length) + rest)) () rest := by
  induction devs generalizing i with
  | nil =>
    simp only [List.map_nil, List.sum_nil, List.length_nil, List.range'_zero, cdevs,
      Multiset.coe_nil, zero_add]
    exact .pure ()
  | cons dev devs ih =>
    have hheld : ((dev :: devs).map buffers).sum +
        (cdevs array (List.range' i (dev :: devs).length) + rest) =
        .cdev array i ::ₘ (buffers dev +
          ((devs.map buffers).sum + (cdevs array (List.range' (i + 1) devs.length) + rest))) := by
      rw [List.length_cons, cdevs_range', List.map_cons, List.sum_cons, Multiset.cons_add,
        Multiset.add_cons, add_assoc]
    rw [hheld]
    refine .bind (release_settles _) ?_
    by_cases hbuffer : dev.pipe.dev.buffer = 0
    · rw [if_neg (not_not.mpr hbuffer)]
      rw [buffers, hbuffer, Pipe.owned_null, List.map_nil, Multiset.coe_nil, zero_add]
      exact ih (i + 1)
    · rw [if_pos hbuffer, buffers, Pipe.owned_of_ne hbuffer, List.map_singleton,
        Multiset.coe_singleton, Multiset.singleton_add]
      exact .bind (release_settles _) (ih (i + 1))

/-- What belongs to an entry of `scull_adev_infos` that was set up. -/
def adevHeld (s : State) (i : Nat) : Multiset Resource :=
  .accessCdev i ::ₘ ((reachable (s.adev i).data).map .object + {.region (s.accessDevno i) 1})

theorem accessCleanupLoop_settles {s : State} (h : ∀ i, Fine (s.adev i)) (indices : List Nat) :
    (accessCleanupLoop s indices).Settles some ((indices.map (adevHeld s)).sum + rest) () rest := by
  induction indices with
  | nil =>
    rw [List.map_nil, List.sum_nil, zero_add]
    exact .pure ()
  | cons i indices ih =>
    have hheld : ((i :: indices).map (adevHeld s)).sum + rest =
        .accessCdev i ::ₘ ((reachable (s.adev i).data).map .object +
          .region (s.accessDevno i) 1 ::ₘ ((indices.map (adevHeld s)).sum + rest)) := by
      rw [List.map_cons, List.sum_cons, adevHeld, Multiset.cons_add, Multiset.cons_add, add_assoc,
        add_assoc, Multiset.singleton_add]
    rw [hheld]
    exact .bind (release_settles _) (.bind (trim_settles (h i)) (.bind (release_settles _) ih))

def items (list : List ScullListitem) : Multiset Resource :=
  (list.map fun lptr => Resource.object (lptr.addr, .kmalloc) : List Resource)

theorem trimList_settles {g : Globals} {list : List ScullListitem} (h : FineList list) :
    (trimList g list).Settles some ((listed list).map .object + rest) () (items list + rest) := by
  induction list generalizing rest with
  | nil =>
    simp only [listed, items, Multiset.map_zero, List.map_nil, Multiset.coe_nil, zero_add]
    exact .pure ()
  | cons lptr next ih =>
    have hheld : (listed (lptr :: next)).map Resource.object + rest =
        (reachable lptr.dev.data).map .object +
          ((listed next).map .object + .object (lptr.addr, .kmalloc) ::ₘ rest) := by
      rw [listed, Multiset.map_cons, Multiset.map_add, Multiset.cons_add, Multiset.add_cons,
        Multiset.add_cons, add_assoc]
    have hleft : items (lptr :: next) + rest =
        items next + .object (lptr.addr, .kmalloc) ::ₘ rest := by
      rw [items, List.map_cons, ← Multiset.cons_coe, Multiset.cons_add, Multiset.add_cons]
      rfl
    rw [hheld, hleft]
    exact .bind (trim_settles (h lptr (List.mem_cons_self ..)))
      (ih fun other hother => h other (List.mem_cons_of_mem _ hother))

end Loops

/-! ## Unloading -/

section Exit
variable {p : Parameters} {s : State}

theorem elements_live {α : Type} (array : Addr) (devs : List α) (count : Nat)
    {held : Multiset Resource} :
    (elements (.live array devs) count).Settles some held (array, devs) held := .pure _

theorem elements_gone {α : Type} {pointer : Pointer (List α)} {count : Nat} (hcount : 0 < count)
    (hgone : ∀ array devs, pointer ≠ .live array devs) : (elements pointer count).result = none := by
  cases pointer with
  | live array devs => exact absurd rfl (hgone array devs)
  | null => simp [elements, Nat.ne_of_gt hcount]
  | dangling array => simp [elements, Nat.ne_of_gt hcount]

theorem kfreeArray_live {α : Type} (array : Addr) (devs : List α) {held : Multiset Resource} :
    (kfreeArray (.live array devs)).Settles some (.array array ::ₘ held) () held :=
  release_settles _

/-- What loading leaves acquired for an entry of `scull_adev_infos`. -/
def accessPair (devno : Nat → Nat) (i : Nat) : Multiset Resource :=
  {.accessCdev i, .region (devno i) 1}

/-- What loading leaves acquired when everything is granted. -/
def loadHeld (s : State) (array parray : Addr) (count pcount nr pnr : Nat) : Multiset Resource :=
  cdevs array (List.range count) +
    {.array array, .region (MKDEV s.main.scullMajor s.main.scullMinor) nr} +
    (cdevs parray (List.range pcount) + {.array parray, .region s.pipes.scullPDevno pnr}) +
    ((List.range scullAccessNrDevs).map (accessPair s.accessDevno)).sum

theorem fine_adev (h : Kept s) (i : Nat) : Fine (s.adev i) := by
  match i with
  | 0 => exact h.single
  | 1 => exact h.uid
  | 2 => exact h.wuid
  | _ + 3 => exact h.placeholder

theorem accessCleanup_settles (h : Kept s) {held : Multiset Resource} :
    (scullAccessCleanup s).Settles some
      (((List.range scullAccessNrDevs).map (adevHeld s)).sum +
        ((listed s.scullCList).map .object + held)) () (items s.scullCList + held) :=
  .bind (accessCleanupLoop_settles (fine_adev h) _) (trimList_settles h.listed)

theorem pCleanup_settles {array : Addr} {devs : List Pipe.Session}
    (hdevs : s.pipes.scullPDevices = .live array devs) {held : Multiset Resource} :
    (scullPCleanup p s).Settles some
      ((devs.map buffers).sum + (cdevs array (List.range' 0 devs.length) +
        .region s.pipes.scullPDevno p.scullPNrDevs ::ₘ .array array ::ₘ held)) () held := by
  unfold scullPCleanup
  rw [hdevs]
  exact .bind (elements_live array devs _) (.bind (pipeLoop_settles array devs 0)
    (.bind (release_settles _) (kfreeArray_live array devs)))

/-- Unloading gives back everything but the items of `scull_c_list`. -/
theorem exit_settles (h : Kept s) {array parray : Addr} {devs : List ScullDev}
    {pdevs : List Pipe.Session} (hdevs : s.main.scullDevices = .live array devs)
    (hpdevs : s.pipes.scullPDevices = .live parray pdevs) :
    (scullExit p s).Settles some
      (s.owned + loadHeld s array parray devs.length pdevs.length p.scullNrDevs p.scullPNrDevs) ()
      (items s.scullCList) := by
  have hheld : s.owned +
      loadHeld s array parray devs.length pdevs.length p.scullNrDevs p.scullPNrDevs =
      (devs.map fun dev => reachable dev.data).sum.map .object +
        (cdevs array (List.range' 0 devs.length) +
          .region (MKDEV s.main.scullMajor s.main.scullMinor) p.scullNrDevs ::ₘ .array array ::ₘ
            ((pdevs.map buffers).sum + (cdevs parray (List.range' 0 pdevs.length) +
              .region s.pipes.scullPDevno p.scullPNrDevs ::ₘ .array parray ::ₘ
                (((List.range scullAccessNrDevs).map (adevHeld s)).sum +
                  ((listed s.scullCList).map .object + 0))))) := by
    simp only [State.owned, State.stored, hdevs, hpdevs, Pointer.sum, loadHeld, accessPair, adevHeld, State.adev,
      List.range_eq_range', scullAccessNrDevs, List.range'_succ, List.range'_zero, List.map_cons,
      List.map_nil, List.sum_cons, List.sum_nil, Multiset.map_add, Multiset.insert_eq_cons,
      ← Multiset.singleton_add]
    abel
  rw [hheld]
  unfold scullExit
  rw [hdevs]
  have hend : (scullAccessCleanup s).Settles some
      (((List.range scullAccessNrDevs).map (adevHeld s)).sum +
        ((listed s.scullCList).map .object + 0)) () (items s.scullCList) := by
    have hsettles := @accessCleanup_settles s h 0
    rw [add_zero (items s.scullCList)] at hsettles
    exact hsettles
  exact .bind (elements_live array devs _) (.bind (exitLoop_settles array (h.devices array devs hdevs) 0)
    (.bind (release_settles _) (.bind (kfreeArray_live array devs)
      (.bind (pCleanup_settles hpdevs) hend))))

end Exit

end MyDrivers.Load
