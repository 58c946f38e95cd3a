import Mathlib.Data.List.Basic
import Mathlib.Tactic.Common

/-! Machines that answer every input. The rules compare the answers of two
machines input by input, and a list of inputs with the list that is left of it
when some of the inputs are taken out. -/
namespace MyDrivers.Lib.Mealy

variable {σ τ α α' β β' γ : Type}

def after (step : σ → α → σ × β) (s : σ) : List α → σ
  | [] => s
  | a :: rest => after step (step s a).1 rest

def answers (step : σ → α → σ × β) (s : σ) : List α → List β
  | [] => []
  | a :: rest => (step s a).2 :: answers step (step s a).1 rest

/-- `cond` holds of every input and the state it finds. -/
def Along (step : σ → α → σ × β) (cond : σ → α → Prop) (s : σ) : List α → Prop
  | [] => True
  | a :: rest => cond s a ∧ Along step cond (step s a).1 rest

variable {step : σ → α → σ × β}

theorem Along.mono {cond cond' : σ → α → Prop} {s : σ} {l : List α}
    (himp : ∀ s, ∀ a ∈ l, cond s a → cond' s a) (h : Along step cond s l) :
    Along step cond' s l := by
  induction l generalizing s with
  | nil => exact h
  | cons a rest ih =>
    constructor
    · exact himp s a (List.mem_cons_self) h.1
    · exact ih (fun s b hb => himp s b (List.mem_cons_of_mem a hb)) h.2

theorem Along.congr {cond cond' : σ → α → Prop} {s : σ} {l : List α}
    (hiff : ∀ s, ∀ a ∈ l, cond s a ↔ cond' s a) : Along step cond s l ↔ Along step cond' s l :=
  ⟨.mono fun s a ha => (hiff s a ha).mp, .mono fun s a ha => (hiff s a ha).mpr⟩

theorem Along.left {cond : σ → α → Prop} {s : σ} {first second : List α}
    (h : Along step cond s (first ++ second)) : Along step cond s first := by
  induction first generalizing s with
  | nil => trivial
  | cons a rest ih => exact ⟨h.1, ih h.2⟩

/-! ## Two machines -/

section Simulation
variable {step' : τ → α' → τ × β'} {abs : σ → τ} {read : α → α'}

theorem after_map {l : List α}
    (same : ∀ s, ∀ a ∈ l, (step' (abs s) (read a)).1 = abs (step s a).1) (s : σ) :
    after step' (abs s) (l.map read) = abs (after step s l) := by
  induction l generalizing s with
  | nil => rfl
  | cons a rest ih =>
    have hrest := ih fun s b hb => same s b (List.mem_cons_of_mem a hb)
    have hhead := same s a List.mem_cons_self
    simp only [List.map_cons, after, hhead]
    exact hrest _

theorem answers_map_iff {l : List α}
    (same : ∀ s, ∀ a ∈ l, (step' (abs s) (read a)).1 = abs (step s a).1)
    (see : β → γ) (see' : β' → γ) (s : σ) :
    (answers step s l).map see = (answers step' (abs s) (l.map read)).map see' ↔
      Along step (fun s a => see (step s a).2 = see' (step' (abs s) (read a)).2) s l := by
  induction l generalizing s with
  | nil => simp [answers, Along]
  | cons a rest ih =>
    have hrest := ih fun s b hb => same s b (List.mem_cons_of_mem a hb)
    have hhead := same s a List.mem_cons_self
    simp only [List.map_cons, answers, Along, hhead, List.cons.injEq]
    exact and_congr_right fun _ => hrest _

end Simulation

/-! ## Taking inputs out -/

section Purge
variable (keep : α → Bool)

/-- The answers to the inputs that are kept. -/
def answersTo (step : σ → α → σ × β) (s : σ) : List α → List β
  | [] => []
  | a :: rest =>
      if keep a then (step s a).2 :: answersTo step (step s a).1 rest
      else answersTo step (step s a).1 rest

/-- The inputs that are not kept can be taken out: neither the state nor the
answers to the others change. -/
def Purges (step : σ → α → σ × β) (s : σ) (l : List α) : Prop :=
  after step s (l.filter keep) = after step s l ∧
    answers step s (l.filter keep) = answersTo keep step s l

def Silent (step : σ → α → σ × β) (s : σ) (a : α) : Prop :=
  keep a = false → (step s a).1 = s

theorem purges_of_silent {s : σ} {l : List α} (h : Along step (Silent keep step) s l) :
    Purges keep step s l := by
  induction l generalizing s with
  | nil => exact ⟨rfl, rfl⟩
  | cons a rest ih =>
    obtain ⟨hafter, hanswers⟩ := ih h.2
    cases hkeep : keep a with
    | true =>
      rw [Purges, List.filter_cons_of_pos hkeep]
      simp only [after, answers, answersTo, hkeep, if_true]
      exact ⟨hafter, congrArg _ hanswers⟩
    | false =>
      rw [Purges, List.filter_cons_of_neg (by simp [hkeep])]
      have hsame := h.1 hkeep
      rw [hsame] at hafter hanswers
      simp only [after, answersTo, hkeep, hsame]
      exact ⟨hafter, hanswers⟩

/-- Every beginning of a list can be purged exactly when each input that is not
kept is silent where it stands. -/
theorem purges_iff {s : σ} {l : List α} :
    (∀ pre, pre <+: l → Purges keep step s pre) ↔ Along step (Silent keep step) s l := by
  constructor
  · intro h
    induction l generalizing s with
    | nil => trivial
    | cons a rest ih =>
      have hsilent : Silent keep step s a := by
        intro hkeep
        have hone := (h [a] (by simp)).1
        rw [List.filter_cons_of_neg (by simp [hkeep])] at hone
        exact hone.symm
      refine ⟨hsilent, ih ?_⟩
      intro pre hpre
      have hmore := h (a :: pre) (by simpa using hpre)
      cases hkeep : keep a with
      | true =>
        rw [Purges, List.filter_cons_of_pos hkeep] at hmore
        simp only [after, answers, answersTo, hkeep, if_true] at hmore
        exact ⟨hmore.1, List.tail_eq_of_cons_eq hmore.2⟩
      | false =>
        rw [Purges, List.filter_cons_of_neg (by simp [hkeep])] at hmore
        simp only [after, answersTo, hkeep, hsilent hkeep] at hmore
        rw [hsilent hkeep]
        exact hmore
  · rintro h pre ⟨rest, rfl⟩
    exact purges_of_silent keep h.left

end Purge

end MyDrivers.Lib.Mealy
