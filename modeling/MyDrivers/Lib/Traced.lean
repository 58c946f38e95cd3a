import Mathlib.Tactic.Common

/-! Computations that record the events they cause. A computation either ends
with a value or stops at an event it does not survive; the trace keeps every
event up to that point. The two judgements below are the partial and the total
correctness of such a computation. -/
namespace MyDrivers.Lib

structure Traced (ε α : Type) where
  trace : List ε
  result : Option α

namespace Traced
variable {ε α β γ δ : Type}

instance : Monad (Traced ε) where
  pure a := ⟨[], some a⟩
  bind x f :=
    match x.result with
    | none => ⟨x.trace, none⟩
    | some a => ⟨x.trace ++ (f a).trace, (f a).result⟩

def emit (e : ε) : Traced ε Unit := ⟨[e], some ()⟩

/-- Record an event and stop unless it is allowed. -/
def guarded (allowed : ε → Bool) (e : ε) : Traced ε Unit :=
  ⟨[e], if allowed e then some () else none⟩

def relabel (f : ε → Option δ) (x : Traced ε α) : Traced δ α := ⟨x.trace.filterMap f, x.result⟩

@[simp] theorem result_pure (a : α) : (pure a : Traced ε α).result = some a := rfl

@[simp] theorem trace_pure (a : α) : (pure a : Traced ε α).trace = [] := rfl

@[simp] theorem result_bind (x : Traced ε α) (f : α → Traced ε β) :
    (x >>= f).result = x.result.bind fun a => (f a).result := by
  cases x with
  | mk trace result => cases result <;> rfl

theorem trace_bind_some {x : Traced ε α} {a : α} (h : x.result = some a)
    (f : α → Traced ε β) : (x >>= f).trace = x.trace ++ (f a).trace := by
  cases x with
  | mk trace result => cases h; rfl

theorem trace_bind_none {x : Traced ε α} (h : x.result = none) (f : α → Traced ε β) :
    (x >>= f).trace = x.trace := by
  cases x with
  | mk trace result => cases h; rfl

theorem result_bind_none {x : Traced ε α} {f : α → Traced ε β} (h : ∀ a, (f a).result = none) :
    (x >>= f).result = none := by
  rw [result_bind]
  cases x.result with
  | none => rfl
  | some a => exact h a

@[simp] theorem result_emit (e : ε) : (emit e).result = some () := rfl

theorem mem_trace_bind {x : Traced ε α} {a : α} (h : x.result = some a) {f : α → Traced ε β}
    {e : ε} (he : e ∈ (f a).trace) : e ∈ (x >>= f).trace := by
  rw [trace_bind_some h]
  exact List.mem_append_right _ he

theorem mem_trace_bind_left {x : Traced ε α} {f : α → Traced ε β} {e : ε} (he : e ∈ x.trace) :
    e ∈ (x >>= f).trace := by
  cases hresult : x.result with
  | none =>
    rw [trace_bind_none hresult]
    exact he
  | some a =>
    rw [trace_bind_some hresult]
    exact List.mem_append_left _ he

theorem result_guarded {allowed : ε → Bool} {e : ε} (h : allowed e = true) :
    (guarded allowed e).result = some () := by
  simp [guarded, h]

@[ext] theorem ext {x y : Traced ε α} (htrace : x.trace = y.trace)
    (hresult : x.result = y.result) : x = y := by
  cases x; cases y; cases htrace; cases hresult; rfl

instance : LawfulMonad (Traced ε) := by
  refine LawfulMonad.mk' _ ?_ ?_ ?_
  · rintro α ⟨trace, _ | a⟩
    · rfl
    · exact Traced.ext (List.append_nil trace) rfl
  · intro α β a f
    exact Traced.ext (List.nil_append _) rfl
  · rintro α β γ ⟨trace, _ | a⟩ f g
    · rfl
    · cases h : (f a).result with
      | none => simp [bind, h]
      | some b => simp [bind, h]

/-! ## Partial correctness -/

/-- Whatever value the computation ends with satisfies `post`. -/
def Returns (x : Traced ε α) (post : α → Prop) : Prop :=
  ∀ a, x.result = some a → post a

theorem Returns.pure {a : α} {post : α → Prop} (h : post a) :
    (pure a : Traced ε α).Returns post := by
  intro b hb
  cases hb
  exact h

theorem Returns.bind {x : Traced ε α} {f : α → Traced ε β} (mid : α → Prop) {post : β → Prop}
    (hx : x.Returns mid) (hf : ∀ a, mid a → (f a).Returns post) : (x >>= f).Returns post := by
  intro b hb
  rw [result_bind] at hb
  obtain ⟨a, ha, hfa⟩ := Option.bind_eq_some_iff.mp hb
  exact hf a (hx a ha) b hfa

theorem Returns.skip {x : Traced ε α} {f : α → Traced ε β} {post : β → Prop}
    (hf : ∀ a, (f a).Returns post) : (x >>= f).Returns post :=
  Returns.bind (fun _ => True) (fun _ _ => trivial) fun a _ => hf a

theorem Returns.mono {x : Traced ε α} {weak strong : α → Prop} (h : x.Returns strong)
    (himp : ∀ a, strong a → weak a) : x.Returns weak :=
  fun a ha => himp a (h a ha)

/-- Every event is `good` and any value satisfies `post`, but the computation
may stop at an event it does not survive. -/
structure Keeps (x : Traced ε α) (good : ε → Prop) (post : α → Prop) : Prop where
  events : ∀ e ∈ x.trace, good e
  returns : x.Returns post

section Keeps
variable {good : ε → Prop}

theorem Keeps.pure {a : α} {post : α → Prop} (h : post a) :
    (pure a : Traced ε α).Keeps good post :=
  ⟨by simp, .pure h⟩

theorem Keeps.bind {x : Traced ε α} {f : α → Traced ε β} {mid : α → Prop} {post : β → Prop}
    (hx : x.Keeps good mid) (hf : ∀ a, mid a → (f a).Keeps good post) :
    (x >>= f).Keeps good post := by
  refine ⟨?_, .bind mid hx.returns fun a ha => (hf a ha).returns⟩
  cases hresult : x.result with
  | none =>
    rw [trace_bind_none hresult]
    exact hx.events
  | some a =>
    rw [trace_bind_some hresult]
    intro e he
    rcases List.mem_append.mp he with he | he
    · exact hx.events e he
    · exact (hf a (hx.returns a hresult)).events e he

theorem Keeps.guarded {allowed : ε → Bool} {e : ε} (h : good e) :
    (Traced.guarded allowed e).Keeps good fun _ => allowed e = true := by
  refine ⟨by simpa [Traced.guarded] using h, ?_⟩
  intro u hu
  simpa [Traced.guarded] using hu

end Keeps

/-! ## Total correctness -/

/-- Every event is `good`, the computation ends, and its value satisfies `post`. -/
structure Safe (x : Traced ε α) (good : ε → Prop) (post : α → Prop) : Prop where
  events : ∀ e ∈ x.trace, good e
  ends : ∃ a, x.result = some a ∧ post a

section Safe
variable {good : ε → Prop}

theorem Safe.pure {a : α} {post : α → Prop} (h : post a) :
    (pure a : Traced ε α).Safe good post :=
  ⟨by simp, a, rfl, h⟩

theorem Safe.bind {x : Traced ε α} {f : α → Traced ε β} {mid : α → Prop} {post : β → Prop}
    (hx : x.Safe good mid) (hf : ∀ a, mid a → (f a).Safe good post) :
    (x >>= f).Safe good post := by
  obtain ⟨a, ha, hmid⟩ := hx.ends
  obtain ⟨b, hb, hpost⟩ := (hf a hmid).ends
  refine ⟨?_, b, by rw [result_bind, ha]; exact hb, hpost⟩
  rw [trace_bind_some ha]
  intro e he
  rcases List.mem_append.mp he with he | he
  · exact hx.events e he
  · exact (hf a hmid).events e he

theorem Safe.mono {x : Traced ε α} {weak strong : α → Prop} (h : x.Safe good strong)
    (himp : ∀ a, strong a → weak a) : x.Safe good weak := by
  obtain ⟨a, ha, hpost⟩ := h.ends
  exact ⟨h.events, a, ha, himp a hpost⟩

theorem Safe.emit {e : ε} (h : good e) : (Traced.emit e).Safe good fun _ => True :=
  ⟨by simpa [Traced.emit] using h, (), rfl, trivial⟩

theorem Safe.guarded {allowed : ε → Bool} {e : ε} (h : good e) (hallowed : allowed e = true) :
    (Traced.guarded allowed e).Safe good fun _ => True :=
  ⟨by simpa [Traced.guarded] using h, (), result_guarded hallowed, trivial⟩

theorem Safe.returns {x : Traced ε α} {post : α → Prop} (h : x.Safe good post) :
    x.Returns post := by
  obtain ⟨a, ha, hpost⟩ := h.ends
  intro b hb
  rw [ha] at hb
  cases hb
  exact hpost

theorem Safe.keeps {x : Traced ε α} {post : α → Prop} {weak : ε → Prop} (h : x.Safe good post)
    (himp : ∀ e, good e → weak e) : x.Keeps weak post :=
  ⟨fun e he => himp e (h.events e he), h.returns⟩

theorem Safe.and_returns {x : Traced ε α} {post more : α → Prop} (h : x.Safe good post)
    (hmore : x.Returns more) : x.Safe good fun a => post a ∧ more a := by
  obtain ⟨a, ha, hpost⟩ := h.ends
  exact ⟨h.events, a, ha, hpost, hmore a ha⟩

end Safe

/-! ## Two computations -/

/-- `y` ends where `x` does, with the image of its value; their events may differ. -/
def Mirrors (f : α → β) (x : Traced ε α) (y : Traced ε β) : Prop := y.result = x.result.map f

theorem Mirrors.pure {f : α → β} (a : α) :
    Mirrors f (pure a : Traced ε α) (pure (f a)) := rfl

theorem Mirrors.bind {f : α → β} {g : γ → δ} {x : Traced ε α} {y : Traced ε β}
    {p : α → Traced ε γ} {q : β → Traced ε δ} (hxy : Mirrors f x y)
    (hpq : ∀ a, Mirrors g (p a) (q (f a))) : Mirrors g (x >>= p) (y >>= q) := by
  unfold Mirrors at hxy ⊢
  rw [result_bind, result_bind, hxy]
  cases x.result with
  | none => rfl
  | some a => exact hpq a

theorem Mirrors.emit (e e' : ε) : Mirrors id (Traced.emit e) (Traced.emit e') := rfl

theorem Mirrors.ends {f : α → β} {x : Traced ε α} {y : Traced ε β} (h : Mirrors f x y) {a : α}
    (ha : x.result = some a) : y.result = some (f a) := by
  rw [h, ha]
  rfl

theorem Mirrors.after {g : γ → δ} (x : Traced ε α) {p : α → Traced ε γ} {q : α → Traced ε δ}
    (hpq : ∀ a, Mirrors g (p a) (q a)) : Mirrors g (x >>= p) (x >>= q) :=
  Mirrors.bind (show Mirrors id x x by simp [Mirrors]) hpq

end Traced

end MyDrivers.Lib
