import Mathlib.Data.Multiset.AddSub
import Mathlib.Data.Multiset.UnionInter
import MyDrivers.Lib.Traced

/-! A ledger of resources. An object is named by a key; to give back a key that
is not held is a fault. A computation is accounted for when its events take what
is held before it to what is held after it. -/
namespace MyDrivers.Lib

variable {κ α ε β γ : Type} [DecidableEq κ]

inductive Entry (κ : Type) where
  | acquire (key : κ)
  | release (key : κ)
  deriving DecidableEq, Repr

def Entry.map {ι : Type} (f : κ → ι) : Entry κ → Entry ι
  | .acquire key => .acquire (f key)
  | .release key => .release (f key)

/-- What is held after the entries; `none` after a fault. -/
def settle (held : Multiset κ) : List (Entry κ) → Option (Multiset κ)
  | [] => some held
  | .acquire key :: rest => settle (key ::ₘ held) rest
  | .release key :: rest => if key ∈ held then settle (held.erase key) rest else none

def Fresh (name : κ → α) (held : Multiset κ) : List (Entry κ) → Prop
  | [] => True
  | .acquire key :: rest => name key ∉ held.map name ∧ Fresh name (key ::ₘ held) rest
  | .release key :: rest => Fresh name (held.erase key) rest

instance Fresh.decidable [DecidableEq α] (name : κ → α) :
    ∀ (held : Multiset κ) (entries : List (Entry κ)), Decidable (Fresh name held entries)
  | _, [] => isTrue trivial
  | held, .acquire key :: rest =>
      have := Fresh.decidable name (key ::ₘ held) rest
      inferInstanceAs (Decidable (name key ∉ held.map name ∧ Fresh name (key ::ₘ held) rest))
  | held, .release key :: rest => Fresh.decidable name (held.erase key) rest

section Settle
variable {held after : Multiset κ} {entries more : List (Entry κ)}

@[simp] theorem settle_nil (held : Multiset κ) : settle held [] = some held := rfl

theorem settle_append (held : Multiset κ) (entries more : List (Entry κ)) :
    settle held (entries ++ more) = (settle held entries).bind fun mid => settle mid more := by
  induction entries generalizing held with
  | nil => rfl
  | cons entry rest ih =>
    cases entry with
    | acquire key => exact ih (key ::ₘ held)
    | release key =>
      simp only [List.cons_append, settle]
      split
      · exact ih (held.erase key)
      · rfl

theorem settle_frame (h : settle held entries = some after) (rest : Multiset κ) :
    settle (held + rest) entries = some (after + rest) := by
  induction entries generalizing held with
  | nil =>
    cases h
    rfl
  | cons entry entries ih =>
    cases entry with
    | acquire key =>
      simp only [settle] at h ⊢
      rw [← Multiset.cons_add]
      exact ih h
    | release key =>
      simp only [settle] at h ⊢
      split at h
      · next hmem =>
        rw [if_pos (Multiset.mem_add.mpr (.inl hmem)), Multiset.erase_add_left_pos _ hmem]
        exact ih h
      · cases h

theorem settle_map {ι : Type} [DecidableEq ι] {f : κ → ι} (hf : Function.Injective f)
    (held : Multiset κ) (entries : List (Entry κ)) :
    settle (held.map f) (entries.map (Entry.map f)) = (settle held entries).map (Multiset.map f) := by
  induction entries generalizing held with
  | nil => rfl
  | cons entry rest ih =>
    cases entry with
    | acquire key =>
      simp only [List.map_cons, Entry.map, settle, ← Multiset.map_cons]
      exact ih (key ::ₘ held)
    | release key =>
      simp only [List.map_cons, Entry.map, settle, Multiset.mem_map_of_injective hf]
      split
      · rw [← Multiset.map_erase f hf]
        exact ih (held.erase key)
      · rfl

theorem settle_balance {other later : Multiset κ} (h : settle held entries = some after)
    (h' : settle other entries = some later) : held + later = other + after := by
  induction entries generalizing held other with
  | nil =>
    cases h
    cases h'
    exact Multiset.add_comm _ _
  | cons entry rest ih =>
    cases entry with
    | acquire key =>
      have hrest := ih h h'
      rw [Multiset.cons_add, Multiset.cons_add] at hrest
      exact (Multiset.cons_inj_right key).mp hrest
    | release key =>
      simp only [settle] at h h'
      split at h
      · next hheld =>
        split at h'
        · next hother =>
          have hrest := congrArg (key ::ₘ ·) (ih h h')
          simp only [← Multiset.cons_add, Multiset.cons_erase hheld,
            Multiset.cons_erase hother] at hrest
          exact hrest
        · cases h'
      · cases h

/-- When no name is taken twice, the names held are distinct. -/
theorem settle_nodup {name : κ → α} (distinct : (held.map name).Nodup)
    (fresh : Fresh name held entries) (h : settle held entries = some after) :
    (after.map name).Nodup := by
  induction entries generalizing held with
  | nil =>
    cases h
    exact distinct
  | cons entry rest ih =>
    cases entry with
    | acquire key =>
      apply ih _ fresh.2 h
      rw [Multiset.map_cons]
      exact Multiset.nodup_cons.mpr ⟨fresh.1, distinct⟩
    | release key =>
      simp only [settle] at h
      split at h
      · next hmem =>
        apply ih _ fresh h
        exact Multiset.nodup_of_le (Multiset.map_le_map (Multiset.erase_le key held)) distinct
      · cases h

end Settle

/-! ## Computations -/

/-- Whatever the computation ends with, its events settle, and what is then held
satisfies `post`. `book` says which events are entries. -/
def Traced.Accounts (book : ε → Option (Entry κ)) (x : Traced ε β) (held : Multiset κ)
    (post : β → Multiset κ → Prop) : Prop :=
  ∀ b, x.result = some b → ∃ after, settle held (x.trace.filterMap book) = some after ∧ post b after

namespace Traced.Accounts
variable {book : ε → Option (Entry κ)} {held : Multiset κ}

theorem pure {b : β} {post : β → Multiset κ → Prop} (h : post b held) :
    (Pure.pure b : Traced ε β).Accounts book held post := by
  intro b' hb'
  cases hb'
  exact ⟨held, rfl, h⟩

theorem bind {x : Traced ε β} {f : β → Traced ε γ} (mid : β → Multiset κ → Prop)
    {post : γ → Multiset κ → Prop} (hx : x.Accounts book held mid)
    (hf : ∀ b after, mid b after → (f b).Accounts book after post) :
    (x >>= f).Accounts book held post := by
  intro c hc
  rw [Traced.result_bind] at hc
  obtain ⟨b, hb, hc⟩ := Option.bind_eq_some_iff.mp hc
  obtain ⟨between, hfirst, hmid⟩ := hx b hb
  obtain ⟨after, hsecond, hpost⟩ := hf b between hmid c hc
  refine ⟨after, ?_, hpost⟩
  rw [Traced.trace_bind_some hb, List.filterMap_append, settle_append, hfirst]
  exact hsecond

theorem mono {x : Traced ε β} {weak strong : β → Multiset κ → Prop}
    (h : x.Accounts book held strong) (himp : ∀ b after, strong b after → weak b after) :
    x.Accounts book held weak := by
  intro b hb
  obtain ⟨after, hsettle, hpost⟩ := h b hb
  exact ⟨after, hsettle, himp b after hpost⟩

theorem returns {x : Traced ε β} {post : β → Multiset κ → Prop} {known : β → Prop}
    (h : x.Accounts book held post) (hknown : x.Returns known) :
    x.Accounts book held fun b after => known b ∧ post b after := by
  intro b hb
  obtain ⟨after, hsettle, hpost⟩ := h b hb
  exact ⟨after, hsettle, hknown b hb, hpost⟩

theorem frame {x : Traced ε β} {post : β → Multiset κ → Prop} (h : x.Accounts book held post)
    (rest : Multiset κ) :
    x.Accounts book (held + rest) fun b after => ∃ own, after = own + rest ∧ post b own := by
  intro b hb
  obtain ⟨after, hsettle, hpost⟩ := h b hb
  exact ⟨after + rest, settle_frame hsettle rest, after, rfl, hpost⟩

theorem guarded {allowed : ε → Bool} {e : ε} (h : book e = none) :
    (Traced.guarded allowed e).Accounts book held fun _ after =>
      allowed e = true ∧ after = held := by
  intro u hu
  refine ⟨held, by simp [Traced.guarded, h], ?_, rfl⟩
  simpa [Traced.guarded] using hu

theorem acquire {e : ε} {key : κ} (h : book e = some (.acquire key)) :
    (Traced.emit e).Accounts book held fun _ after => after = key ::ₘ held := by
  intro u _
  exact ⟨key ::ₘ held, by simp [Traced.emit, h, settle], rfl⟩

theorem release {e : ε} {key : κ} (h : book e = some (.release key)) :
    (Traced.emit e).Accounts book (key ::ₘ held) fun _ after => after = held := by
  intro u _
  exact ⟨held, by simp [Traced.emit, h, settle], rfl⟩

theorem relabel {ι : Type} [DecidableEq ι] {f : κ → ι} (hf : Function.Injective f)
    {x : Traced ε β} {post : β → Multiset κ → Prop} (h : x.Accounts book held post) :
    (x.relabel fun e => (book e).map (Entry.map f)).Accounts some (held.map f)
      fun b after => ∃ own, after = own.map f ∧ post b own := by
  intro b hb
  obtain ⟨after, hsettle, hpost⟩ := h b hb
  refine ⟨after.map f, ?_, after, rfl, hpost⟩
  have hentries : (x.relabel fun e => (book e).map (Entry.map f)).trace.filterMap some =
      (x.trace.filterMap book).map (Entry.map f) := by
    rw [List.filterMap_some, Traced.relabel, List.map_filterMap]
  rw [hentries, settle_map hf, hsettle]
  rfl

end Traced.Accounts

/-- The computation ends with `b`, and its events take what is held to `after`. -/
structure Traced.Settles (book : ε → Option (Entry κ)) (x : Traced ε β) (held : Multiset κ)
    (b : β) (after : Multiset κ) : Prop where
  ends : x.result = some b
  settles : settle held (x.trace.filterMap book) = some after

namespace Traced.Settles
variable {book : ε → Option (Entry κ)} {held mid after : Multiset κ}

theorem pure (b : β) : (Pure.pure b : Traced ε β).Settles book held b held := ⟨rfl, rfl⟩

theorem bind {x : Traced ε β} {f : β → Traced ε γ} {b : β} {c : γ}
    (hx : x.Settles book held b mid) (hf : (f b).Settles book mid c after) :
    (x >>= f).Settles book held c after := by
  refine ⟨?_, ?_⟩
  · rw [Traced.result_bind, hx.ends]
    exact hf.ends
  · rw [Traced.trace_bind_some hx.ends, List.filterMap_append, settle_append, hx.settles]
    exact hf.settles

theorem frame {x : Traced ε β} {b : β} (h : x.Settles book held b after) (rest : Multiset κ) :
    x.Settles book (held + rest) b (after + rest) := ⟨h.ends, settle_frame h.settles rest⟩

theorem of_accounts {x : Traced ε β} {b : β} {post : β → Multiset κ → Prop}
    (h : x.Accounts book held post) (hb : x.result = some b) :
    ∃ after, x.Settles book held b after ∧ post b after := by
  obtain ⟨after, hsettle, hpost⟩ := h b hb
  exact ⟨after, ⟨hb, hsettle⟩, hpost⟩

theorem acquire {e : ε} {key : κ} (h : book e = some (.acquire key)) :
    (Traced.emit e).Settles book held () (key ::ₘ held) :=
  ⟨rfl, by simp [Traced.emit, h, settle]⟩

theorem release {e : ε} {key : κ} (h : book e = some (.release key)) :
    (Traced.emit e).Settles book (key ::ₘ held) () held :=
  ⟨rfl, by simp [Traced.emit, h, settle]⟩

end Traced.Settles

end MyDrivers.Lib
