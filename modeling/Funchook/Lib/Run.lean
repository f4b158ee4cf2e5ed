import Mathlib.Tactic.Common

/-!
# Runs of a system that answers calls

A system is a relation between the state before a call, the call and the state after it. A run is
a finite sequence of calls, each of which meets a condition on the call and the state it is made
in. What a call keeps, a run keeps.
-/

namespace Runs

variable {σ κ : Type*}

/-- The states that runs from `s₀` reach when every call meets `cond`. -/
inductive Run (step : σ → κ → σ → Prop) (cond : σ → κ → Prop) (s₀ : σ) : σ → Prop where
  | start : Run step cond s₀ s₀
  | call {s s' : σ} (h : Run step cond s₀ s) (c : κ) (hcond : cond s c) (hstep : step s c s') :
      Run step cond s₀ s'

variable {step : σ → κ → σ → Prop} {cond : σ → κ → Prop} {s₀ s : σ}

/-- **Invariants.** What holds at the start and is kept by every call holds in every state. -/
theorem Run.invariant {inv : σ → Prop} (hstart : inv s₀)
    (hstep : ∀ s c s', inv s → cond s c → step s c s' → inv s') (h : Run step cond s₀ s) :
    inv s := by
  induction h with
  | start => exact hstart
  | call _ c hcond hcall ih => exact hstep _ c _ ih hcond hcall

/-- The runs with the calls they are made of. -/
inductive Trace (step : σ → κ → σ → Prop) (cond : σ → κ → Prop) (s₀ : σ) : List κ → σ → Prop where
  | start : Trace step cond s₀ [] s₀
  | call {cs : List κ} {s s' : σ} (h : Trace step cond s₀ cs s) (c : κ) (hcond : cond s c)
      (hstep : step s c s') : Trace step cond s₀ (cs ++ [c]) s'

theorem Trace.run {cs : List κ} (h : Trace step cond s₀ cs s) : Run step cond s₀ s := by
  induction h with
  | start => exact .start
  | call _ c hcond hstep ih => exact ih.call c hcond hstep

theorem Trace.imp {step' : σ → κ → σ → Prop} {cond' : σ → κ → Prop} {cs : List κ}
    (h : Trace step cond s₀ cs s)
    (himp : ∀ s c s', cond s c → step s c s' → cond' s c ∧ step' s c s') :
    Trace step' cond' s₀ cs s := by
  induction h with
  | start => exact .start
  | call _ c hcond hstep ih =>
    obtain ⟨hcond', hstep'⟩ := himp _ c _ hcond hstep
    exact ih.call c hcond' hstep'

/-- What a call keeps may be used for the calls after it. -/
theorem Trace.strengthen {inv : σ → Prop} {cs : List κ} (hstart : inv s₀)
    (hstep : ∀ s c s', inv s → cond s c → step s c s' → inv s')
    (h : Trace step cond s₀ cs s) :
    Trace step (fun s c => inv s ∧ cond s c) s₀ cs s ∧ inv s := by
  induction h with
  | start => exact ⟨.start, hstart⟩
  | call _ c hcond hcall ih =>
    exact ⟨ih.1.call c ⟨ih.2, hcond⟩ hcall, hstep _ c _ ih.2 hcond hcall⟩

end Runs
