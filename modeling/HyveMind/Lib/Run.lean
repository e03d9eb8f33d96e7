import Mathlib.Tactic

/-! # Runs of a labelled transition relation

`Run step s ls s'`: the labels `ls` take `s` to `s'`.  An invariant that every step preserves
holds at the end of every run (`Run.invariant`); `Run.invariant_of` is the version for runs all
of whose steps meet a side condition.  `Run.of_foldlM` computes a run of a deterministic system, and
`foldlM_inv` is the rule for loops over a list. -/

namespace HyveMind.Lib

variable {σ ι : Type*} {step : σ → ι → σ → Prop}

/-- The labels `ls`, taken one after the other, lead from `s` to `s'`. -/
inductive Run (step : σ → ι → σ → Prop) : σ → List ι → σ → Prop
  | nil (s : σ) : Run step s [] s
  | snoc {s s₁ s₂ : σ} {ls : List ι} {l : ι} :
      Run step s ls s₁ → step s₁ l s₂ → Run step s (ls ++ [l]) s₂

theorem Run.cons {s s₁ s₂ : σ} {l : ι} {ls : List ι} (hl : step s l s₁)
    (h : Run step s₁ ls s₂) : Run step s (l :: ls) s₂ := by
  induction h with
  | nil => exact Run.snoc (Run.nil s) hl
  | snoc _ hl' ih => exact Run.snoc ih hl'

theorem Run.of_nil {s s' : σ} (h : Run step s [] s') : s' = s := by
  generalize hnil : ([] : List ι) = ls at h
  cases h with
  | nil => rfl
  | snoc _ _ => simp at hnil

theorem Run.of_cons {s s' : σ} {l : ι} {ls : List ι} (h : Run step s (l :: ls) s') :
    ∃ s₁, step s l s₁ ∧ Run step s₁ ls s' := by
  generalize hcons : l :: ls = ls' at h
  induction h generalizing ls with
  | nil => cases hcons
  | @snoc s₁ s₂ ls₁ l₁ hrun hl ih =>
      cases ls₁ with
      | nil =>
          rw [List.nil_append, List.cons.injEq] at hcons
          obtain ⟨rfl, rfl⟩ := hcons
          rw [hrun.of_nil] at hl
          exact ⟨s₂, hl, Run.nil s₂⟩
      | cons l' ls₁ =>
          rw [List.cons_append, List.cons.injEq] at hcons
          obtain ⟨rfl, rfl⟩ := hcons
          obtain ⟨s', hl', hrun'⟩ := ih rfl
          exact ⟨s', hl', hrun'.snoc hl⟩

theorem Run.unique (hstep : ∀ s l s₁ s₂, step s l s₁ → step s l s₂ → s₁ = s₂) {s s₁ s₂ : σ}
    {ls : List ι} (h₁ : Run step s ls s₁) (h₂ : Run step s ls s₂) : s₁ = s₂ := by
  induction ls generalizing s with
  | nil => rw [h₁.of_nil, h₂.of_nil]
  | cons l ls ih =>
      obtain ⟨s', hl, h₁⟩ := h₁.of_cons
      obtain ⟨s'', hl', h₂⟩ := h₂.of_cons
      rw [hstep s l s' s'' hl hl'] at h₁
      exact ih h₁ h₂

theorem Run.of_foldlM (call : σ → ι → Option σ) {ls : List ι} {s s' : σ}
    (hcall : ∀ s l s', l ∈ ls → call s l = some s' → step s l s')
    (h : ls.foldlM call s = some s') : Run step s ls s' := by
  induction ls generalizing s with
  | nil =>
      rw [List.foldlM_nil, Option.pure_def, Option.some.injEq] at h
      rw [← h]
      exact Run.nil s
  | cons l ls ih =>
      rw [List.foldlM_cons] at h
      obtain ⟨s₁, h1, h2⟩ := Option.bind_eq_some_iff.mp h
      exact Run.cons (hcall s l s₁ (List.mem_cons_self ..) h1)
        (ih (fun s l s' hl => hcall s l s' (List.mem_cons_of_mem _ hl)) h2)

theorem Run.invariant {I : σ → Prop} (hstep : ∀ s l s', I s → step s l s' → I s') {s s' : σ}
    {ls : List ι} (h : Run step s ls s') (hs : I s) : I s' := by
  induction h with
  | nil => exact hs
  | snoc _ hl ih => exact hstep _ _ _ ih hl

/-- The invariant rule for what is said about a state and the labels that led to it. -/
theorem Run.history {I : List ι → σ → Prop} {s s' : σ} {ls : List ι} (h : Run step s ls s')
    (hs : I [] s) (hstep : ∀ ls s l s', I ls s → step s l s' → I (ls ++ [l]) s') : I ls s' := by
  induction h with
  | nil => exact hs
  | snoc _ hl ih => exact hstep _ _ _ _ ih hl

theorem foldlM_inv {I : σ → Prop} {call : σ → ι → Option σ} {ls : List ι}
    (hstep : ∀ s l s', l ∈ ls → I s → call s l = some s' → I s') {s s' : σ} (hs : I s)
    (h : ls.foldlM call s = some s') : I s' := by
  have hrun : Run (fun s l s' => l ∈ ls ∧ call s l = some s') s ls s' :=
    Run.of_foldlM call (fun _ _ _ hl hc => ⟨hl, hc⟩) h
  exact hrun.invariant (fun s l s' hI hl => hstep s l s' hl.1 hI hl.2) hs

/-- The invariant rule for steps that satisfy the side condition `C`. -/
theorem Run.invariant_of {I : σ → Prop} {C : σ → ι → Prop}
    (hstep : ∀ s l s', I s → C s l → step s l s' → I s') {s s' : σ} {ls : List ι}
    (h : Run (fun s l s' => step s l s' ∧ C s l) s ls s') (hs : I s) : I s' :=
  Run.invariant (fun s l s' hi hl => hstep s l s' hi hl.2 hl.1) h hs

end HyveMind.Lib
