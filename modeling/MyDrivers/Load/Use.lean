import MyDrivers.Load.State
import MyDrivers.Store.Interleaved

/-! What goes on in the module `scull` between its loading and its unloading. A call is cut
where the source takes or gives up a lock, and where a trim begins: these are its parts. -/
namespace MyDrivers.Load
open Lib
open Store (Env Globals ScullDev Supply Object reachable)
open Access (Task Variant Request)
open Access.Copy (ScullListitem zeroedDev deviceOf lookfor scullCLookforDevice)

/-- A part of a call; on a pipe it is one section. -/
inductive Use (size : Nat) where
  /-- `scull_read` or `scull_write`. -/
  | transfer (place : Place) (request : Store.Request) (env : Env)
  /-- The trim of an open for writing. -/
  | trim (place : Place)
  /-- What else `scull_u_open`, `scull_w_open` and their releases do. -/
  | request (variant : Variant) (req : Request)
  /-- `scull_c_open` up to `spin_unlock`. -/
  | lookfor (tty : Option Nat) (fd : Nat) (supply : Supply)
  | scullCRelease (file : Access.Copy.File)
  | ioctl (call : Store.IoctlCall)
  | pipe (i : Nat) (sec : Pipe.Section size)

def Use.place {size : Nat} : Use size → Option Place
  | .transfer place _ _ => some place
  | .trim place => some place
  | _ => none

def bookStore (e : Store.Event) : Option (Entry Resource) :=
  (Store.Event.entry e).map (Entry.map .object)

/-- A computation on a scull device, in the ledger of the module. -/
def fromStore {α : Type} (x : Traced Store.Event α) : Booking α := x.relabel bookStore

/-- What `kfree` and `kmalloc` did to the buffer of a pipe. -/
def pipeEntries (reply : Pipe.Reply) : List (Entry Resource) :=
  (reply.freed.map fun addr => .release (.buffer addr)).toList ++
    (reply.alloc.map fun addr => .acquire (.buffer addr)).toList

def unusable {α : Type} : Booking α := ⟨[], none⟩

/-- The request without the access mode, so that it does not trim. -/
def untrimmed : Request → Request
  | .open task fFlags => .open task (fFlags - (fFlags &&& Store.O_ACCMODE))
  | .retry task fFlags => .retry task (fFlags - (fFlags &&& Store.O_ACCMODE))
  | req => req

/-- A part that works on a device has seen it before: a transfer took its snapshot then, and
a trim has loaded `dev->data`. -/
def Use.run {size : Nat} (seen : ScullDev) (s : State) : Use size → Booking State
  | .transfer place req env =>
      match s.dev? place with
      | some dev => do
          let t ← fromStore ((req.snapshot seen).locked s.globals dev env)
          return s.setDev place t.dev
      | none => unusable
  | .trim place =>
      match s.dev? place with
      | some dev => do
          let dev ← fromStore (Store.scullTrim s.globals { dev with data := seen.data })
          return s.setDev place dev
      | none => unusable
  | .request variant req =>
      match req with
      | .transfer _ => unusable
      | req => do
          let (_, t) ← fromStore ((untrimmed req).run variant s.globals (s.guarded variant))
          return s.setGuarded variant t
  | .lookfor tty fd supply =>
      match tty with
      | none => return s
      | some key => do
          let (dev, list) ← fromStore
            (Access.Copy.scullCLookforDevice s.globals s.scullCList key supply)
          let files := if dev.isSome then ⟨key, fd⟩ :: s.scullCFiles else s.scullCFiles
          return { s with scullCList := list, scullCFiles := files }
  | .scullCRelease file => return { s with scullCFiles := s.scullCFiles.erase file }
  | .ioctl call => return { s with globals := (Store.scullIoctl s.globals call).globals }
  | .pipe i sec =>
      match s.pipes.scullPDevices with
      | .live array devs =>
          match devs[i]? with
          | some dev =>
              if sec.Offered dev then
                let (reply, t) := sec.run dev
                ⟨pipeEntries reply, some { s with
                  pipes := { s.pipes with scullPDevices := .live array (devs.set i t) } }⟩
              else unusable
          | none => unusable
      | _ => unusable

/-! ## The parts by themselves -/

theorem locked_fine {g : Globals} {dev : ScullDev} (hset : g.Set) (h : Fine dev) {seen : ScullDev}
    (request : Store.Request) (current : ∀ buff pos, request = .write buff pos → seen.qset = dev.qset)
    (env : Env) :
    ((request.snapshot seen).locked g dev env).Accounts Store.Event.entry (reachable dev.data)
      fun t after => after = reachable t.dev.data ∧ Fine t.dev := by
  have horderly := orderly_of_fine hset h
  cases request with
  | read count pos =>
    refine (Store.read_orderly horderly (Store.readSnapshot seen pos) count pos env).mono ?_
    rintro t _ ⟨rfl, ht⟩
    exact ⟨rfl, fine_of_orderly ht⟩
  | write buff pos =>
    have hcurrent : (Store.writeSnapshot seen).qset = dev.qset := current buff pos rfl
    refine (Store.write_orderly horderly fits_setting hcurrent buff pos env).mono ?_
    rintro t _ ⟨rfl, ht⟩
    exact ⟨rfl, fine_of_orderly ht⟩

theorem trim_fine {g : Globals} (hset : g.Set) {dev : ScullDev} (h : Fine dev) :
    (Store.scullTrim g dev).Accounts Store.Event.entry (reachable dev.data)
      fun dev after => after = reachable dev.data ∧ Fine dev := by
  intro after hafter
  obtain ⟨held, hsettle, rfl, rfl⟩ := Store.scullTrim_accounts g h.tidy after hafter
  exact ⟨0, hsettle, rfl, hset, Store.tidy_nil _⟩

/-! ## The requests of scull_uid and scull_wuid -/

section Requests
variable {g : Globals} (held : Multiset Object)

theorem untrimmed_flags (fFlags : Nat) :
    ¬ (fFlags - (fFlags &&& Store.O_ACCMODE)) &&& Store.O_ACCMODE = Store.O_WRONLY := by
  have hmode (flags : Nat) : flags &&& Store.O_ACCMODE = flags % 4 :=
    Nat.and_two_pow_sub_one_eq_mod flags 2
  have hwronly : Store.O_WRONLY = 1 := rfl
  rw [hmode, hmode, hwronly]
  omega

theorem openLocked_untrimmed (variant : Variant) (task : Task) {fFlags : Nat}
    (hflags : ¬ fFlags &&& Store.O_ACCMODE = Store.O_WRONLY) (guard : Access.Guard) :
    (variant.openLocked g task fFlags guard).Accounts Store.Event.entry held fun r after =>
      after = held ∧ r.2.dev = guard.dev := by
  have henter : (guard.enter g task fFlags >>= fun guard => pure (some (0 : Int), guard)).Accounts
      Store.Event.entry held fun r after => after = held ∧ r.2.dev = guard.dev := by
    rw [Access.Guard.enter, Store.scullOpen, if_neg hflags]
    exact .pure ⟨rfl, rfl⟩
  cases variant with
  | uid =>
    unfold Variant.openLocked Access.scullUOpen
    simp only
    split
    · exact .pure ⟨rfl, rfl⟩
    · exact henter
  | wuid =>
    unfold Variant.openLocked Access.scullWOpen
    simp only
    split
    · exact henter
    · split
      · exact .pure ⟨rfl, rfl⟩
      · exact .pure ⟨rfl, rfl⟩

theorem opened_dev (session : Access.Session) (task : Task) (fFlags : Nat) (ret : Option Int)
    (guard : Access.Guard) : (session.opened task fFlags ret guard).guard = guard := by
  unfold Access.Session.opened
  split <;> rfl

theorem request_untrimmed (variant : Variant) (session : Access.Session) {req : Request}
    (hreq : ∀ dev, req ≠ .transfer dev) :
    ((untrimmed req).run variant g session).Accounts Store.Event.entry held fun r after =>
      after = held ∧ r.2.guard.dev = session.guard.dev := by
  cases req with
  | «open» task fFlags =>
    refine .bind _ (openLocked_untrimmed held variant task (untrimmed_flags fFlags) session.guard) ?_
    rintro ⟨ret, guard⟩ _ ⟨rfl, hguard⟩
    exact .pure ⟨rfl, by rw [opened_dev]; exact hguard⟩
  | retry task fFlags =>
    refine .bind _ (openLocked_untrimmed held variant task (untrimmed_flags fFlags) session.guard) ?_
    rintro ⟨ret, guard⟩ _ ⟨rfl, hguard⟩
    exact .pure ⟨rfl, by rw [opened_dev]; exact hguard⟩
  | signal task fFlags => exact .pure ⟨rfl, rfl⟩
  | release task =>
    simp only [untrimmed, Request.run, Access.releaseLocked_eq]
    exact .pure ⟨rfl, rfl⟩
  | transfer dev => exact absurd rfl (hreq dev)

end Requests

section Lookfor
variable {g : Globals} {list : List ScullListitem}

theorem lookfor_fine (hset : g.Set) (h : FineList list) (key : Nat) (supply : Store.Supply) :
    (scullCLookforDevice g list key supply).Accounts Store.Event.entry (listed list)
      fun r after => after = listed r.2 ∧ FineList r.2 := by
  unfold scullCLookforDevice
  cases lookfor list key with
  | some dev => exact .pure ⟨rfl, h⟩
  | none =>
    refine .bind _ (Store.grant?_accounts supply .kmalloc) ?_
    rintro ⟨addr, rest⟩ _ rfl
    cases addr with
    | none => exact .pure ⟨zero_add _, h⟩
    | some addr =>
      have hzeroed : Fine zeroedDev :=
        ⟨⟨⟨by decide, by decide⟩, by decide, by decide⟩, Store.tidy_nil _⟩
      have htrim := (trim_fine hset hzeroed).frame ({(addr, .kmalloc)} + listed list)
      rw [show reachable zeroedDev.data = 0 from rfl, zero_add] at htrim
      refine .bind _ htrim ?_
      rintro dev _ ⟨own, rfl, rfl, hdev⟩
      refine .pure ⟨?_, fun lptr hlptr => ?_⟩
      · rw [Multiset.singleton_add, Multiset.add_cons]
        rfl
      · rcases List.mem_cons.mp hlptr with rfl | hlptr
        · exact hdev
        · exact h lptr hlptr

theorem lookfor_others (key : Nat) (supply : Supply) {k : Nat} {dev : ScullDev}
    (hdev : deviceOf list k = some dev) :
    (scullCLookforDevice g list key supply).Returns fun r => deviceOf r.2 k = some dev := by
  unfold scullCLookforDevice
  cases hkey : lookfor list key with
  | some item => exact .pure hdev
  | none =>
    have haway : k ≠ key := by
      rintro rfl
      rw [deviceOf, hkey] at hdev
      cases hdev
    refine .skip ?_
    rintro ⟨addr, rest⟩
    cases addr with
    | none => exact .pure hdev
    | some addr => exact .skip fun after => .pure (by rw [Access.Copy.deviceOf_cons, if_neg haway, hdev])

end Lookfor

theorem pipe_settles {size : Nat} {s t : Pipe.Session} {sec : Pipe.Section size}
    {reply : Pipe.Reply} (hstep : Pipe.Step s (sec, reply) t) (rest : Multiset Resource) :
    settle (buffers s + rest) (pipeEntries reply) = some (buffers t + rest) := by
  cases Pipe.step_cases hstep with
  | refused sec reply open? failed idle => simp [pipeEntries, idle]
  | allocated mode fresh empty =>
    have hnonnull : fresh.addr ≠ 0 := Nat.ne_of_gt fresh.nonnull
    simp [pipeEntries, buffers, settle, empty, Pipe.Reply.returns, Pipe.ScullPipe.count,
      Pipe.ScullPipe.allocated, Pipe.owned_of_ne hnonnull]
  | opened mode kmalloc live => rfl
  | lost mode member => rfl
  | freed mode member dev counted last =>
    have hbuffer : dev.buffer = s.pipe.dev.buffer := by rw [counted]; rfl
    by_cases hnull : s.pipe.dev.buffer = 0
    · simp [pipeEntries, buffers, hbuffer, hnull, Pipe.Reply.returns]
    · simp [pipeEntries, buffers, settle, hbuffer, hnull, Pipe.Reply.returns, Pipe.owned_of_ne hnull]
  | released mode member dev counted more =>
    have hbuffer : dev.buffer = s.pipe.dev.buffer := by rw [counted]; rfl
    simp [pipeEntries, buffers, hbuffer, Pipe.Reply.returns]
  | read fFlags count accessible n file data taken => rfl
  | writeFault fFlags buff accessible file space short => rfl
  | wrote fFlags buff accessible n file space taken => rfl

/-! ## What a part does to the ledger -/

theorem object_injective : Function.Injective Resource.object := by
  intro a b h
  cases h
  rfl

theorem unusable_accounts {held : Multiset Resource} {post : State → Multiset Resource → Prop} :
    unusable.Accounts some held post := by
  intro t ht
  cases ht

section Places
variable {s : State} {place : Place} {dev : ScullDev}

theorem component_accounts {α : Type} {x : Traced Store.Event α} {next : α → State}
    {held : Multiset Object} (rest : Multiset Object) {post : α → Multiset Object → Prop}
    (hx : x.Accounts Store.Event.entry held post) (hheld : s.stored = held + rest)
    (hnext : ∀ a after, post a after → (next a).stored = after + rest ∧
      (next a).pipes = s.pipes ∧ Kept (next a)) :
    (fromStore x >>= fun a => pure (next a)).Accounts some s.owned fun t after =>
      after = t.owned ∧ Kept t := by
  have hframed := (hx.relabel object_injective).frame
    (rest.map .object + s.pipes.scullPDevices.sum buffers)
  rw [← add_assoc, ← Multiset.map_add, ← hheld] at hframed
  refine .bind _ hframed ?_
  rintro a _ ⟨_, rfl, own, rfl, hpost⟩
  obtain ⟨hstored, hpipes, hkept⟩ := hnext a own hpost
  refine .pure ⟨?_, hkept⟩
  rw [State.owned, hstored, hpipes, Multiset.map_add, add_assoc]

theorem place_accounts {α : Type} (h : Kept s) (hdev : s.dev? place = some dev)
    {x : Traced Store.Event α} {next : α → ScullDev}
    (hx : x.Accounts Store.Event.entry (reachable dev.data) fun a after =>
      after = reachable (next a).data ∧ Fine (next a)) :
    (fromStore x >>= fun a => pure (s.setDev place (next a))).Accounts some s.owned fun t after =>
      after = t.owned ∧ Kept t := by
  obtain ⟨rest, hstored, hset⟩ := stored_setDev hdev
  apply component_accounts rest hx hstored
  rintro a _ ⟨rfl, hfine⟩
  exact ⟨hset (next a), pipes_setDev s place (next a), kept_setDev h hfine place⟩

end Places

/-- What a part relies on: a write attaches an array of `qset` slots as it saw it, and a trim
frees the list it has found. -/
def Use.Relies {size : Nat} (seen dev : ScullDev) : Use size → Prop
  | .transfer _ (.write _ _) _ => seen.qset = dev.qset
  | .trim _ => seen.data = dev.data
  | _ => True

instance {size : Nat} (seen dev : ScullDev) (use : Use size) : Decidable (use.Relies seen dev) :=
  match use with
  | .transfer _ (.write _ _) _ => inferInstanceAs (Decidable (_ = _))
  | .transfer _ (.read _ _) _ => inferInstanceAs (Decidable True)
  | .trim _ => inferInstanceAs (Decidable (_ = _))
  | .request _ _ => inferInstanceAs (Decidable True)
  | .lookfor _ _ _ => inferInstanceAs (Decidable True)
  | .scullCRelease _ => inferInstanceAs (Decidable True)
  | .ioctl _ => inferInstanceAs (Decidable True)
  | .pipe _ _ => inferInstanceAs (Decidable True)

def Use.Finds {size : Nat} (seen : ScullDev) (s : State) (use : Use size) : Prop :=
  ∀ place, use.place = some place → ∃ dev, s.dev? place = some dev ∧ use.Relies seen dev

section Uses
variable {size : Nat} {s : State} {seen : ScullDev}

theorem transfer_accounts (h : Kept s) {place : Place} {request : Store.Request} {env : Env}
    (finds : (Use.transfer place request env : Use size).Finds seen s) :
    ((Use.transfer place request env : Use size).run seen s).Accounts some s.owned fun t after =>
      after = t.owned ∧ Kept t := by
  obtain ⟨dev, hdev, hrelies⟩ := finds place rfl
  simp only [Use.run, hdev]
  apply place_accounts h hdev
  apply locked_fine h.globals (kept_dev h hdev)
  rintro buff pos rfl
  exact hrelies

theorem trim_accounts (h : Kept s) {place : Place} (finds : (Use.trim place : Use size).Finds seen s) :
    ((Use.trim place : Use size).run seen s).Accounts some s.owned fun t after =>
      after = t.owned ∧ Kept t := by
  obtain ⟨dev, hdev, hrelies⟩ := finds place rfl
  have hfound : { dev with data := seen.data } = dev := by
    rw [show seen.data = dev.data from hrelies]
  simp only [Use.run, hdev, hfound]
  exact place_accounts h hdev (trim_fine h.globals (kept_dev h hdev))

theorem request_accounts (h : Kept s) (variant : Variant) (req : Request) :
    ((Use.request variant req : Use size).run seen s).Accounts some s.owned fun t after =>
      after = t.owned ∧ Kept t := by
  have hrequest (hreq : ∀ dev, req ≠ .transfer dev) :
      (fromStore ((untrimmed req).run variant s.globals (s.guarded variant)) >>= fun r =>
        pure (s.setGuarded variant r.2)).Accounts some s.owned fun t after =>
          after = t.owned ∧ Kept t := by
    apply component_accounts 0 (request_untrimmed s.stored variant (s.guarded variant) hreq)
      (add_zero _).symm
    rintro ⟨ret, session⟩ _ ⟨rfl, hdev⟩
    cases variant with
    | uid =>
      have hdev : session.guard.dev = s.scullU.guard.dev := hdev
      refine ⟨?_, rfl, h.globals, h.devices, h.single, ?_, h.wuid, h.placeholder, h.listed⟩
      · simp only [State.stored, State.setGuarded, hdev, add_zero]
      · simp only [State.setGuarded, hdev]
        exact h.uid
    | wuid =>
      have hdev : session.guard.dev = s.scullW.guard.dev := hdev
      refine ⟨?_, rfl, h.globals, h.devices, h.single, h.uid, ?_, h.placeholder, h.listed⟩
      · simp only [State.stored, State.setGuarded, hdev, add_zero]
      · simp only [State.setGuarded, hdev]
        exact h.wuid
  cases req with
  | transfer dev => exact unusable_accounts
  | «open» task fFlags => exact hrequest (by simp)
  | retry task fFlags => exact hrequest (by simp)
  | signal task fFlags => exact hrequest (by simp)
  | release task => exact hrequest (by simp)

theorem lookfor_accounts (h : Kept s) (tty : Option Nat) (fd : Nat) (supply : Supply) :
    ((Use.lookfor tty fd supply : Use size).run seen s).Accounts some s.owned fun t after =>
      after = t.owned ∧ Kept t := by
  cases tty with
  | none => exact .pure ⟨rfl, h⟩
  | some key =>
    apply component_accounts (s.main.scullDevices.sum (fun dev => reachable dev.data) +
      reachable s.scullSDev.data + reachable s.scullU.guard.dev.data +
      reachable s.scullW.guard.dev.data + reachable s.scullCDev.data)
      (lookfor_fine h.globals h.listed key supply)
    · rw [State.stored, add_comm]
    · rintro ⟨dev, list⟩ _ ⟨rfl, hlist⟩
      exact ⟨by rw [State.stored, add_comm], rfl, h.globals, h.devices, h.single, h.uid, h.wuid,
        h.placeholder, hlist⟩

theorem pipe_accounts (h : Kept s) (i : Nat) (sec : Pipe.Section size) :
    ((Use.pipe i sec).run seen s).Accounts some s.owned fun t after => after = t.owned ∧ Kept t := by
  simp only [Use.run]
  cases hpointer : s.pipes.scullPDevices with
  | null => exact unusable_accounts
  | dangling array => exact unusable_accounts
  | live array devs =>
    cases hdev : devs[i]? with
    | none => simp only [hdev]; exact unusable_accounts
    | some dev =>
      simp only [hdev]
      split
      · next hoffered =>
        obtain ⟨rest, hsum, hset⟩ := sum_set buffers hdev
        intro t ht
        cases ht
        refine ⟨_, ?_, rfl, h.globals, h.devices, h.single, h.uid, h.wuid, h.placeholder, h.listed⟩
        have hsettle := pipe_settles (Pipe.step_run hoffered) (s.stored.map .object + rest)
        simp only [State.owned, State.stored, hpointer, Pointer.sum, hsum, hset,
          List.filterMap_some] at hsettle ⊢
        rw [add_left_comm, hsettle, add_left_comm]
      · exact unusable_accounts

/-- What is held besides the resources of loading is what the devices own. -/
theorem use_accounts (h : Kept s) {use : Use size} (finds : use.Finds seen s) :
    (use.run seen s).Accounts some s.owned fun t after => after = t.owned ∧ Kept t := by
  cases use with
  | transfer place request env => exact transfer_accounts h finds
  | trim place => exact trim_accounts h finds
  | request variant req => exact request_accounts h variant req
  | lookfor tty fd supply => exact lookfor_accounts h tty fd supply
  | scullCRelease file =>
    exact .pure ⟨rfl, h.globals, h.devices, h.single, h.uid, h.wuid, h.placeholder, h.listed⟩
  | ioctl call =>
    exact .pure ⟨rfl, Store.scullIoctl_set h.globals call, h.devices, h.single, h.uid, h.wuid,
      h.placeholder, h.listed⟩
  | pipe i sec => exact pipe_accounts h i sec

/-! ## What a part leaves alone -/

theorem unusable_returns {α : Type} {post : α → Prop} : (unusable : Booking α).Returns post := by
  intro t ht
  cases ht

theorem pipe_returns {i : Nat} {sec : Pipe.Section size} {post : State → Prop}
    (h : ∀ array devs t, s.pipes.scullPDevices = .live array devs →
      post { s with pipes := { s.pipes with scullPDevices := .live array (devs.set i t) } }) :
    ((Use.pipe i sec).run seen s).Returns post := by
  simp only [Use.run]
  cases hpointer : s.pipes.scullPDevices with
  | null => exact unusable_returns
  | dangling array => exact unusable_returns
  | live array devs =>
    simp only
    split
    · split
      · intro t ht
        cases ht
        exact h array devs _ hpointer
      · exact unusable_returns
    · exact unusable_returns

theorem use_elsewhere (use : Use size) {place : Place} {dev : ScullDev}
    (hdev : s.dev? place = some dev) (haway : use.place ≠ some place) :
    (use.run seen s).Returns fun t => t.dev? place = some dev := by
  cases use with
  | transfer own req env =>
    have hother : place ≠ own := fun h => haway (congrArg some h.symm)
    simp only [Use.run]
    split
    · exact .skip fun t => .pure ((dev?_setDev hother t.dev).trans hdev)
    · exact unusable_returns
  | trim own =>
    have hother : place ≠ own := fun h => haway (congrArg some h.symm)
    simp only [Use.run]
    split
    · exact .skip fun dev => .pure ((dev?_setDev hother dev).trans hdev)
    · exact unusable_returns
  | request variant req =>
    have hrequest (hreq : ∀ dev, req ≠ .transfer dev) :
        (fromStore ((untrimmed req).run variant s.globals (s.guarded variant)) >>= fun r =>
          pure (s.setGuarded variant r.2)).Returns fun t => t.dev? place = some dev := by
      refine .bind (fun r => r.2.guard.dev = (s.guarded variant).guard.dev) (fun r hr => ?_) ?_
      · obtain ⟨_, -, -, hsame⟩ :=
          request_untrimmed 0 variant (s.guarded variant) hreq r hr
        exact hsame
      · exact fun r hsame => .pure ((dev?_setGuarded hsame place).trans hdev)
    cases req with
    | transfer dev => exact unusable_returns
    | «open» task fFlags => exact hrequest (by simp)
    | retry task fFlags => exact hrequest (by simp)
    | signal task fFlags => exact hrequest (by simp)
    | release task => exact hrequest (by simp)
  | lookfor tty fd supply =>
    cases tty with
    | none => exact .pure hdev
    | some key =>
      cases place with
      | terminal k =>
        have hothers : (fromStore
            (Access.Copy.scullCLookforDevice s.globals s.scullCList key supply)).Returns
            fun r => deviceOf r.2 k = some dev := lookfor_others key supply hdev
        exact .bind _ hothers fun r hr => .pure hr
      | main i => exact .skip fun r => .pure hdev
      | single => exact .skip fun r => .pure hdev
      | guarded variant => exact .skip fun r => .pure hdev
  | scullCRelease file => exact .pure hdev
  | ioctl call => exact .pure hdev
  | pipe i sec => exact pipe_returns fun _ _ _ _ => hdev

theorem use_layout (use : Use size) : (use.run seen s).Returns fun t => t.layout = s.layout := by
  cases use with
  | transfer place req env =>
    simp only [Use.run]
    split
    · exact .skip fun t => .pure (layout_setDev s place t.dev)
    · exact unusable_returns
  | trim place =>
    simp only [Use.run]
    split
    · exact .skip fun dev => .pure (layout_setDev s place dev)
    · exact unusable_returns
  | request variant req =>
    cases req with
    | transfer dev => exact unusable_returns
    | «open» task fFlags => exact .skip fun r => .pure (layout_setGuarded s variant r.2)
    | retry task fFlags => exact .skip fun r => .pure (layout_setGuarded s variant r.2)
    | signal task fFlags => exact .skip fun r => .pure (layout_setGuarded s variant r.2)
    | release task => exact .skip fun r => .pure (layout_setGuarded s variant r.2)
  | lookfor tty fd supply =>
    cases tty with
    | none => exact .pure rfl
    | some key => exact .skip fun r => .pure rfl
  | scullCRelease file => exact .pure rfl
  | ioctl call => exact .pure rfl
  | pipe i sec =>
    refine pipe_returns fun array devs t hpointer => ?_
    simp [State.layout, Pointer.extent, hpointer]

end Uses

end MyDrivers.Load
