import Mathlib.Data.List.Induction
import Mathlib.Tactic.Common

/-! Runs of a labelled transition relation, with the list of their labels. The
rules package the induction over a run once: invariants, invariants that speak
of the labels, and the runs all of whose steps meet a condition. -/
namespace MyDrivers.Lib

variable {σ α : Type}

/-- The labels, in order, take `start` to the final state. -/
inductive Run (step : σ → α → σ → Prop) (start : σ) : List α → σ → Prop
  | nil : Run step start [] start
  | snoc {labels : List α} {s : σ} {l : α} {t : σ} :
      Run step start labels s → step s l t → Run step start (labels ++ [l]) t

/-- The steps that are taken while `cond` holds of state and label. -/
def While (cond : σ → α → Prop) (step : σ → α → σ → Prop) (s : σ) (l : α) (t : σ) : Prop :=
  cond s l ∧ step s l t

def Deterministic (step : σ → α → σ → Prop) : Prop :=
  ∀ s l t u, step s l t → step s l u → t = u

theorem Deterministic.guarded {cond : σ → α → Prop} {step : σ → α → σ → Prop}
    (h : Deterministic step) : Deterministic (While cond step) :=
  fun s l t u left right => h s l t u left.2 right.2

namespace Run
variable {step : σ → α → σ → Prop} {start : σ}

theorem single {l : α} {t : σ} (h : step start l t) : Run step start [l] t := by
  simpa using Run.snoc Run.nil h

theorem append {first second : List α} {s t : σ} (left : Run step start first s)
    (right : Run step s second t) : Run step start (first ++ second) t := by
  induction right with
  | nil => simpa using left
  | snoc _ hstep ih =>
    rw [← List.append_assoc]
    exact ih.snoc hstep

theorem cons {l : α} {labels : List α} {s t : σ} (h : step start l s)
    (rest : Run step s labels t) : Run step start (l :: labels) t :=
  (single h).append rest

theorem nil_end {t : σ} (run : Run step start [] t) : t = start := by
  generalize hlabels : ([] : List α) = labels at run
  cases run with
  | nil => rfl
  | snoc _ _ => simp at hlabels

theorem snoc_inv {labels : List α} {l : α} {t : σ} (run : Run step start (labels ++ [l]) t) :
    ∃ s, Run step start labels s ∧ step s l t := by
  generalize hall : labels ++ [l] = all at run
  cases run with
  | nil => simp at hall
  | snoc earlier hstep =>
    obtain ⟨hlabels, hl⟩ := List.append_inj' hall rfl
    cases hlabels
    cases hl
    exact ⟨_, earlier, hstep⟩

theorem split {first second : List α} {t : σ} (run : Run step start (first ++ second) t) :
    ∃ s, Run step start first s ∧ Run step s second t := by
  induction second using List.reverseRecOn generalizing t with
  | nil => exact ⟨t, by simpa using run, .nil⟩
  | append_singleton labels l ih =>
    rw [← List.append_assoc] at run
    obtain ⟨s, earlier, hstep⟩ := run.snoc_inv
    obtain ⟨u, hfirst, hrest⟩ := ih earlier
    exact ⟨u, hfirst, hrest.snoc hstep⟩

theorem cons_inv {l : α} {labels : List α} {t : σ} (run : Run step start (l :: labels) t) :
    ∃ s, step start l s ∧ Run step s labels t := by
  obtain ⟨s, hfirst, hrest⟩ := @split _ _ _ _ [l] labels _ run
  obtain ⟨s', hnil, hstep⟩ := @snoc_inv _ _ _ _ [] l _ hfirst
  cases hnil.nil_end
  exact ⟨s, hstep, hrest⟩

/-- A fact about state and labels that every step carries forward holds at the
end of every run. -/
theorem invariant (inv : List α → σ → Prop) (initial : inv [] start)
    (preserved : ∀ labels s l t, Run step start labels s → inv labels s → step s l t →
      inv (labels ++ [l]) t)
    {labels : List α} {t : σ} (run : Run step start labels t) : inv labels t := by
  induction run with
  | nil => exact initial
  | snoc earlier hstep ih => exact preserved _ _ _ _ earlier ih hstep

theorem mono {other : σ → α → σ → Prop} (himp : ∀ s l t, step s l t → other s l t)
    {labels : List α} {t : σ} (run : Run step start labels t) : Run other start labels t := by
  induction run with
  | nil => exact .nil
  | snoc _ hstep ih => exact ih.snoc (himp _ _ _ hstep)

theorem forget {cond : σ → α → Prop} {labels : List α} {t : σ}
    (run : Run (While cond step) start labels t) : Run step start labels t :=
  run.mono fun _ _ _ h => h.2

theorem guarded {cond : σ → α → Prop} {labels : List α} {t : σ} (run : Run step start labels t)
    (hcond : ∀ s, ∀ l ∈ labels, cond s l) : Run (While cond step) start labels t := by
  induction run with
  | nil => exact .nil
  | @snoc labels s l t _ hstep ih =>
    have earlier := ih fun s l hl => hcond s l (List.mem_append_left _ hl)
    exact earlier.snoc ⟨hcond s l (by simp), hstep⟩

theorem of_foldlM {next : σ → α → Option σ} {labels : List α} {t : σ}
    (h : labels.foldlM next start = some t) :
    Run (fun s l t => next s l = some t) start labels t := by
  induction labels generalizing start with
  | nil =>
    cases h
    exact .nil
  | cons l labels ih =>
    obtain ⟨s, hstep, hrest⟩ := Option.bind_eq_some_iff.mp h
    exact cons hstep (ih hrest)

theorem of_possible {next : σ → α → Option σ} {labels : List α}
    (h : (labels.foldlM next start).isSome = true) :
    Run (fun s l t => next s l = some t) start labels ((labels.foldlM next start).getD start) := by
  obtain ⟨t, ht⟩ := Option.isSome_iff_exists.mp h
  rw [ht]
  exact of_foldlM ht

theorem of_any {next : σ → α → Option σ} {good : σ → Bool} {labels : List α}
    (h : (labels.foldlM next start).any good = true) :
    ∃ t, good t = true ∧ Run (fun s l t => next s l = some t) start labels t := by
  obtain ⟨t, ht, hgood⟩ := (Option.any_eq_true _ _).mp h
  exact ⟨t, hgood, of_foldlM ht⟩

theorem checked {next : σ → α → Option σ} {cond : σ → α → Prop} [∀ s l, Decidable (cond s l)]
    {labels : List α} {t : σ}
    (run : Run (fun s l t => (if cond s l then next s l else none) = some t) start labels t) :
    Run (While cond fun s l t => next s l = some t) start labels t := by
  apply run.mono
  intro s l t hstep
  split at hstep
  · next hcond => exact ⟨hcond, hstep⟩
  · cases hstep

theorem unique (det : Deterministic step) {labels : List α} {t u : σ}
    (left : Run step start labels t) (right : Run step start labels u) : t = u := by
  induction left generalizing u with
  | nil => exact right.nil_end.symm
  | snoc _ hstep ih =>
    obtain ⟨s, earlier, hlast⟩ := right.snoc_inv
    cases ih earlier
    exact det _ _ _ _ hstep hlast

theorem answer {β : Type} {step : σ → α × β → σ → Prop} {calls : List α} {t : σ}
    (run : Run (fun s call t => ∃ reply, step s (call, reply) t) start calls t) :
    ∃ labels : List (α × β), labels.map Prod.fst = calls ∧ Run step start labels t := by
  induction run with
  | nil => exact ⟨[], rfl, .nil⟩
  | @snoc calls s call t _ hstep ih =>
    obtain ⟨labels, hcalls, earlier⟩ := ih
    obtain ⟨reply, hstep⟩ := hstep
    exact ⟨labels ++ [(call, reply)], by simp [hcalls], earlier.snoc hstep⟩

theorem same_replies {β : Type} {step : σ → α × β → σ → Prop}
    (answered : ∀ s call reply t reply' u, step s (call, reply) t → step s (call, reply') u →
      reply = reply' ∧ t = u)
    {first second : List (α × β)} {t u : σ} (left : Run step start first t)
    (right : Run step start second u) (h : first.map Prod.fst = second.map Prod.fst) :
    first = second ∧ t = u := by
  induction left generalizing second u with
  | nil =>
    have hnil : second = [] := List.map_eq_nil_iff.mp h.symm
    subst hnil
    exact ⟨rfl, right.nil_end.symm⟩
  | @snoc labels s l t earlier hstep ih =>
    rcases List.eq_nil_or_concat second with hnil | ⟨labels', l', hsnoc⟩
    · rw [hnil] at h
      simp at h
    · rw [List.concat_eq_append] at hsnoc
      subst hsnoc
      obtain ⟨s', earlier', hstep'⟩ := right.snoc_inv
      rw [List.map_append, List.map_append] at h
      obtain ⟨hlabels, hlast⟩ := List.append_inj' h rfl
      obtain ⟨rfl, rfl⟩ := ih earlier' hlabels
      have hcall : l.1 = l'.1 := by simpa using hlast
      obtain ⟨call, reply⟩ := l
      obtain ⟨call', reply'⟩ := l'
      cases hcall
      obtain ⟨rfl, rfl⟩ := answered s call reply t reply' u hstep hstep'
      exact ⟨rfl, rfl⟩

/-- When a step keeps `good` exactly if `cond` holds before it, `good` holds at
every point of a run if and only if all its steps meet `cond`. -/
theorem always_iff (det : Deterministic step) {good : List α → σ → Prop}
    {cond : σ → α → Prop} (initial : good [] start)
    (exact : ∀ labels s l t, Run step start labels s → good labels s → step s l t →
      (good (labels ++ [l]) t ↔ cond s l))
    {labels : List α} {t : σ} (run : Run step start labels t) :
    (∀ pre s, pre <+: labels → Run step start pre s → good pre s) ↔
      Run (While cond step) start labels t := by
  constructor
  · intro always
    induction run with
    | nil => exact .nil
    | @snoc labels s l t earlier hstep ih =>
      have hprefix : labels <+: labels ++ [l] := List.prefix_append labels [l]
      have hbefore : good labels s := always labels s hprefix earlier
      have hafter : good (labels ++ [l]) t :=
        always _ t (List.prefix_refl _) (earlier.snoc hstep)
      refine (ih fun pre u hpre hrun => always pre u (hpre.trans hprefix) hrun).snoc ?_
      exact ⟨(exact labels s l t earlier hbefore hstep).mp hafter, hstep⟩
  · intro conditioned pre s hpre hrun
    obtain ⟨rest, rfl⟩ := hpre
    obtain ⟨u, hfirst, -⟩ := conditioned.split
    cases hrun.unique det hfirst.forget
    refine hfirst.invariant good initial ?_
    intro labels s l t earlier hgood hstep
    exact (exact labels s l t earlier.forget hgood hstep.2).mpr hstep.1

/-- The same for what a step does: every step of a run is `ok` if and only if all of
them meet `cond`, when that is so of each step from a state that steps which meet
`cond` lead to. -/
theorem each_iff (det : Deterministic step) {inv : σ → Prop} {ok : σ → α → σ → Prop}
    {cond : σ → α → Prop} (initial : inv start)
    (kept : ∀ s l t, inv s → cond s l → step s l t → inv t)
    (exact : ∀ s l t, inv s → step s l t → (ok s l t ↔ cond s l))
    {labels : List α} {t : σ} (run : Run step start labels t) :
    (∀ pre l s u, pre ++ [l] <+: labels → Run step start pre s → step s l u → ok s l u) ↔
      Run (While cond step) start labels t := by
  have reached {pre : List α} {s : σ} (conditioned : Run (While cond step) start pre s) : inv s :=
    conditioned.invariant (fun _ s => inv s) initial fun _ s l t _ hinv hstep =>
      kept s l t hinv hstep.1 hstep.2
  constructor
  · intro each
    induction run with
    | nil => exact .nil
    | @snoc labels s l t earlier hstep ih =>
      have conditioned := ih fun pre l s u hpre => each pre l s u (hpre.trans (List.prefix_append _ _))
      have hok : ok s l t := each labels l s t (List.prefix_refl _) earlier hstep
      exact conditioned.snoc ⟨(exact s l t (reached conditioned) hstep).mp hok, hstep⟩
  · rintro conditioned pre l s u ⟨rest, rfl⟩ hrun hstep
    obtain ⟨v, hfirst, -⟩ := conditioned.split
    obtain ⟨s', hpre, hcond, -⟩ := hfirst.snoc_inv
    cases hrun.unique det hpre.forget
    exact (exact s l u (reached hpre) hstep).mpr hcond

end Run

end MyDrivers.Lib
