import MyDrivers.Load.Use

/-! Parts of calls that overlap. A part begins when its call does, starts when it has the
semaphore of its device or goes to trim it, and has its effect when it ends. -/
namespace MyDrivers.Load
open Lib
open Store (ScullDev)
open Access.Copy (zeroedDev)

structure Ongoing (size : Nat) where
  use : Use size
  /-- The device as a transfer saw it when it began, or as a trim found it. -/
  seen : ScullDev
  busy : Bool

structure World (size : Nat) where
  state : State
  calls : List (Nat × Ongoing size)

def World.loaded {size : Nat} (p : Parameters) (main : MainVars)
    (subs : Option (PipeVars × AccessVars)) : World size := ⟨State.loaded p main subs, []⟩

/-- Processes are told apart by numbers. -/
inductive Move (size : Nat) where
  | begins (id : Nat) (use : Use size)
  | starts (id : Nat)
  | ends (id : Nat)
  /-- `down_interruptible` gives up. -/
  | interrupted (id : Nat)

section Moves
variable {size : Nat}

/-- The semaphore that a part holds from its start to its end; a trim takes none. -/
def Use.semaphore : Use size → Option Place
  | .transfer place _ _ => some place
  | _ => none

def Use.looks (s : State) (use : Use size) : Option ScullDev :=
  match use.place with
  | some place => s.dev? place
  | none => some zeroedDev

/-- What a part goes by that starts while the device is `dev`: a trim loads `dev->data`. -/
def Ongoing.sees (call : Ongoing size) (dev : ScullDev) : ScullDev :=
  match call.use with
  | .trim _ => dev
  | _ => call.seen

def World.others (w : World size) (id : Nat) : List (Nat × Ongoing size) :=
  w.calls.filter fun e => e.1 ≠ id

def World.put (w : World size) (id : Nat) (call : Ongoing size) : World size :=
  { w with calls := (id, call) :: w.others id }

def World.Free (w : World size) (id : Nat) (place : Place) : Prop :=
  ∀ e ∈ w.others id, e.2.busy = true → e.2.use.place ≠ some place

instance (w : World size) (id : Nat) (place : Place) : Decidable (w.Free id place) :=
  inferInstanceAs (Decidable (∀ e ∈ w.others id, _ → _))

def World.Available (w : World size) (use : Use size) : Prop :=
  ∀ e ∈ w.calls, e.2.busy = true → use.semaphore.isSome → e.2.use.semaphore ≠ use.semaphore

instance (w : World size) (use : Use size) : Decidable (w.Available use) :=
  inferInstanceAs (Decidable (∀ e ∈ w.calls, _ → _ → _))

def Move.run (w : World size) : Move size → Booking (World size)
  | .begins id use =>
      match w.calls.lookup id, use.looks w.state with
      | none, some dev => pure (w.put id ⟨use, dev, false⟩)
      | _, _ => unusable
  | .starts id =>
      match w.calls.lookup id with
      | some call =>
          match call.use.looks w.state with
          | some dev =>
              if call.busy = false ∧ w.Available call.use then
                pure (w.put id ⟨call.use, call.sees dev, true⟩)
              else unusable
          | none => unusable
      | none => unusable
  | .ends id =>
      match w.calls.lookup id with
      | some call =>
          if call.busy then do
            let t ← call.use.run call.seen w.state
            return ⟨t, w.others id⟩
          else unusable
      | none => unusable
  | .interrupted id =>
      match w.calls.lookup id with
      | some call =>
          if call.busy = false ∧ call.use.semaphore.isSome then pure ⟨w.state, w.others id⟩
          else unusable
      | none => unusable

/-- A part that starts has its device to itself, and a write finds `dev->qset` as it saw it. -/
def World.Undisturbed (w : World size) : Move size → Prop
  | .starts id => ∀ call ∈ w.calls.lookup id, ∀ place ∈ call.use.place,
      w.Free id place ∧ ∀ dev ∈ w.state.dev? place, call.use.Relies (call.sees dev) dev
  | _ => True

instance (w : World size) : (m : Move size) → Decidable (w.Undisturbed m)
  | .begins _ _ => inferInstanceAs (Decidable True)
  | .starts id => inferInstanceAs (Decidable (∀ call ∈ w.calls.lookup id,
      ∀ place ∈ call.use.place, _ ∧ ∀ dev ∈ w.state.dev? place, _))
  | .ends _ => inferInstanceAs (Decidable True)
  | .interrupted _ => inferInstanceAs (Decidable True)

def Moves (w : World size) (done : Move size × List (Entry Resource)) (w' : World size) : Prop :=
  (done.1.run w).result = some w' ∧ done.2 = (done.1.run w).trace

/-- The moves of parts that do not meet on a device. -/
def Serial : World size → Move size × List (Entry Resource) → World size → Prop :=
  While (fun w done => w.Undisturbed done.1) Moves

def used (labels : List (Move size × List (Entry Resource))) : List (Entry Resource) :=
  labels.flatMap Prod.snd

end Moves

/-! ## What undisturbed moves keep -/

section Worlds
variable {size : Nat} {w w' : World size} {id : Nat} {call : Ongoing size}

/-- A part that is busy finds its device as it goes by it, and has it to itself. -/
structure Settled (w : World size) : Prop where
  kept : Kept w.state
  finds : ∀ e ∈ w.calls, e.2.busy = true → e.2.use.Finds e.2.seen w.state
  apart : ∀ a ∈ w.calls, ∀ b ∈ w.calls, a.1 ≠ b.1 → a.2.busy = true → b.2.busy = true →
    ∀ place, a.2.use.place = some place → b.2.use.place ≠ some place

theorem mem_of_lookup (h : w.calls.lookup id = some call) : (id, call) ∈ w.calls := by
  obtain ⟨before, after, hcalls, -⟩ := List.lookup_eq_some_iff.mp h
  rw [hcalls]
  exact List.mem_append_right _ (List.mem_cons_self ..)

theorem mem_others {e : Nat × Ongoing size} : e ∈ w.others id ↔ e ∈ w.calls ∧ e.1 ≠ id := by
  simp [World.others]

theorem settled_put (h : Settled w)
    (finds : call.busy = true → call.use.Finds call.seen w.state)
    (free : call.busy = true → ∀ place, call.use.place = some place → w.Free id place) :
    Settled (w.put id call) := by
  refine ⟨h.kept, fun e he => ?_, fun a ha b hb hid => ?_⟩
  · rcases List.mem_cons.mp he with rfl | he
    · exact finds
    · exact h.finds e (mem_others.mp he).1
  · intro habusy hbbusy place haplace hbplace
    rcases List.mem_cons.mp ha with rfl | ha
    · rcases List.mem_cons.mp hb with rfl | hb
      · exact hid rfl
      · exact free habusy place haplace b hb hbbusy hbplace
    · rcases List.mem_cons.mp hb with rfl | hb
      · exact free hbbusy place hbplace a ha habusy haplace
      · exact h.apart a (mem_others.mp ha).1 b (mem_others.mp hb).1 hid habusy hbbusy place haplace
          hbplace

theorem settled_others (h : Settled w) {s : State} (kept : Kept s)
    (elsewhere : ∀ e ∈ w.others id, e.2.busy = true → ∀ place dev, e.2.use.place = some place →
      w.state.dev? place = some dev → s.dev? place = some dev) : Settled ⟨s, w.others id⟩ := by
  refine ⟨kept, fun e he hbusy place hplace => ?_, fun a ha b hb =>
    h.apart a (mem_others.mp ha).1 b (mem_others.mp hb).1⟩
  obtain ⟨dev, hdev, hrelies⟩ := h.finds e (mem_others.mp he).1 hbusy place hplace
  exact ⟨dev, elsewhere e he hbusy place dev hplace hdev, hrelies⟩

/-- A part only has an effect when it ends. -/
inductive Moved (w : World size) : Move size → List (Entry Resource) → World size → Prop
  | begins {id : Nat} {use : Use size} {dev : ScullDev} (looks : use.looks w.state = some dev) :
      Moved w (.begins id use) [] (w.put id ⟨use, dev, false⟩)
  | starts {id : Nat} {call : Ongoing size} {dev : ScullDev}
      (lookup : w.calls.lookup id = some call) (looks : call.use.looks w.state = some dev) :
      Moved w (.starts id) [] (w.put id ⟨call.use, call.sees dev, true⟩)
  | ends {id : Nat} {call : Ongoing size} {t : State} (lookup : w.calls.lookup id = some call)
      (busy : call.busy = true) (returned : (call.use.run call.seen w.state).result = some t) :
      Moved w (.ends id) (call.use.run call.seen w.state).trace ⟨t, w.others id⟩
  | interrupted {id : Nat} : Moved w (.interrupted id) [] ⟨w.state, w.others id⟩

theorem run_cases {move : Move size} (hreturned : (move.run w).result = some w') :
    Moved w move (move.run w).trace w' := by
  cases move with
  | begins id use =>
    simp only [Move.run] at hreturned ⊢
    split at hreturned
    · next dev hidle hlooks =>
      cases hreturned
      exact .begins hlooks
    · cases hreturned
  | starts id =>
    simp only [Move.run] at hreturned ⊢
    split at hreturned
    · next call hcall =>
      split at hreturned
      · next dev hlooks =>
        split at hreturned
        · next havailable =>
          cases hreturned
          rw [if_pos havailable]
          exact .starts hcall hlooks
        · cases hreturned
      · cases hreturned
    · cases hreturned
  | ends id =>
    simp only [Move.run] at hreturned ⊢
    split at hreturned
    · next call hcall =>
      split at hreturned
      · next hbusy =>
        rw [Traced.result_bind] at hreturned
        obtain ⟨t, ht, hw⟩ := Option.bind_eq_some_iff.mp hreturned
        cases hw
        rw [if_pos hbusy, Traced.trace_bind_some ht, Traced.trace_pure, List.append_nil]
        exact .ends hcall hbusy ht
      · cases hreturned
    · cases hreturned
  | interrupted id =>
    simp only [Move.run] at hreturned ⊢
    split at hreturned
    · next call hcall =>
      split at hreturned
      · next hwaits =>
        cases hreturned
        rw [if_pos hwaits]
        exact .interrupted
      · cases hreturned
    · cases hreturned

theorem moves_cases {done : Move size × List (Entry Resource)} (hmove : Moves w done w') :
    Moved w done.1 done.2 w' := hmove.2 ▸ run_cases hmove.1

theorem starts_settled (h : Settled w) (undisturbed : w.Undisturbed (.starts id))
    (lookup : w.calls.lookup id = some call) {dev : ScullDev}
    (looks : call.use.looks w.state = some dev) :
    Settled (w.put id ⟨call.use, call.sees dev, true⟩) := by
  refine settled_put h (fun _ place hplace => ?_) fun _ place hplace => ?_
  · have hdev : w.state.dev? place = some dev := by
      simpa [Use.looks, show call.use.place = some place from hplace] using looks
    exact ⟨dev, hdev, (undisturbed call lookup place hplace).2 dev hdev⟩
  · exact (undisturbed call lookup place hplace).1

theorem ends_settled (h : Settled w) {t : State} (lookup : w.calls.lookup id = some call)
    (busy : call.busy = true) (returned : (call.use.run call.seen w.state).result = some t) :
    Settled ⟨t, w.others id⟩ ∧
      settle w.state.owned (call.use.run call.seen w.state).trace = some t.owned := by
  have hmem := mem_of_lookup lookup
  obtain ⟨_, hsettle, rfl, hkept⟩ := use_accounts h.kept (h.finds _ hmem busy) t returned
  rw [List.filterMap_some] at hsettle
  refine ⟨settled_others h hkept fun e he hebusy place dev hplace hdev => ?_, hsettle⟩
  have hother := mem_others.mp he
  exact use_elsewhere call.use hdev
    (h.apart e hother.1 (id, call) hmem hother.2 hebusy busy place hplace) t returned

theorem move_settled (h : Settled w) {done : Move size × List (Entry Resource)}
    (hmove : Serial w done w') :
    Settled w' ∧ settle w.state.owned done.2 = some w'.state.owned := by
  obtain ⟨move, entries⟩ := done
  obtain ⟨undisturbed, hmoves⟩ := hmove
  cases moves_cases hmoves with
  | begins looks => exact ⟨settled_put h (by simp) (by simp), rfl⟩
  | starts lookup looks => exact ⟨starts_settled h undisturbed lookup looks, rfl⟩
  | ends lookup busy returned => exact ends_settled h lookup busy returned
  | interrupted => exact ⟨settled_others h h.kept fun _ _ _ _ _ _ hdev => hdev, rfl⟩

theorem move_layout {done : Move size × List (Entry Resource)} (hmove : Moves w done w') :
    w'.state.layout = w.state.layout := by
  obtain ⟨move, entries⟩ := done
  cases moves_cases hmove with
  | begins looks => rfl
  | starts lookup looks => rfl
  | ends lookup busy returned => exact use_layout _ _ returned
  | interrupted => rfl

/-! ## Runs -/

variable {labels : List (Move size × List (Entry Resource))}

theorem run_layout (run : Run Moves w labels w') : w'.state.layout = w.state.layout := by
  refine run.invariant (fun _ w' => w'.state.layout = w.state.layout) rfl ?_
  intro labels u done t _ hlayout hmove
  exact (move_layout hmove).trans hlayout

/-- Whatever the devices were used for, they own what was acquired and not released. -/
theorem run_owned (h : Kept w.state) (idle : w.calls = []) (run : Run Serial w labels w')
    (rest : Multiset Resource) :
    settle (w.state.owned + rest) (used labels) = some (w'.state.owned + rest) ∧
      Settled w' := by
  refine run.invariant (fun labels w' =>
    settle (w.state.owned + rest) (used labels) = some (w'.state.owned + rest) ∧ Settled w')
    ⟨rfl, h, by simp [idle], by simp [idle]⟩ ?_
  rintro labels u ⟨move, entries⟩ t - ⟨hsettle, hsettled⟩ hmove
  obtain ⟨hafter, hstep⟩ := move_settled hsettled hmove
  refine ⟨?_, hafter⟩
  have hused : used (labels ++ [(move, entries)]) = used labels ++ entries := by simp [used]
  rw [hused, settle_append, hsettle, Option.bind_some, settle_frame hstep]

end Worlds

theorem run_moves {size : Nat} (cond : World size → Move size → Prop)
    [∀ w m, Decidable (cond w m)] {w w' : World size} {moves : List (Move size)}
    (h : (moves.foldlM (fun w m => if cond w m then m.run w else unusable) w).result = some w') :
    ∃ labels, labels.map Prod.fst = moves ∧
      used labels = (moves.foldlM (fun w m => if cond w m then m.run w else unusable) w).trace ∧
      Run (While (fun w done => cond w done.1) Moves) w labels w' := by
  induction moves generalizing w with
  | nil =>
    cases h
    exact ⟨[], rfl, rfl, .nil⟩
  | cons move moves ih =>
    rw [List.foldlM_cons, Traced.result_bind] at h
    obtain ⟨u, hmove, hrest⟩ := Option.bind_eq_some_iff.mp h
    obtain ⟨labels, hlabels, hused, run⟩ := ih hrest
    rw [List.foldlM_cons, Traced.trace_bind_some hmove, ← hused]
    split at hmove
    · next hcond =>
      rw [if_pos hcond]
      exact ⟨(move, (move.run w).trace) :: labels, by simp [hlabels], rfl,
        .cons ⟨hcond, hmove, rfl⟩ run⟩
    · cases hmove

end MyDrivers.Load
