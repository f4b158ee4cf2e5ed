import Mathlib.Tactic.Common

/-!
# Loops that are left from the body

The body of a loop leaves it with a result or goes on from another state. A loop is run with a
number of rounds at most; what it returns does not depend on that number once it is large enough.
-/

namespace Loops

variable {σ ρ : Type*}

/-- The loop from a state on, `none` when it has not been left after `fuel` rounds. -/
def run (body : σ → ρ ⊕ σ) : ℕ → σ → Option ρ
  | 0, _ => none
  | fuel + 1, s =>
    match body s with
    | .inl r => some r
    | .inr s' => run body fuel s'

/-- The loop is left with `r`. -/
inductive Returns (body : σ → ρ ⊕ σ) : σ → ρ → Prop
  | leave {s : σ} {r : ρ} : body s = .inl r → Returns body s r
  | round {s s' : σ} {r : ρ} : body s = .inr s' → Returns body s' r → Returns body s r

variable {body : σ → ρ ⊕ σ} {s : σ} {r : ρ}

/-- **Enough rounds** give the result. -/
theorem Returns.run (h : Returns body s r) :
    ∃ rounds, ∀ fuel, rounds ≤ fuel → run body fuel s = some r := by
  induction h with
  | leave hbody =>
    refine ⟨1, fun fuel hfuel => ?_⟩
    obtain ⟨fuel, rfl⟩ := Nat.exists_eq_add_of_le' hfuel
    show (match body _ with | .inl r => some r | .inr s' => Loops.run body fuel s') = _
    rw [hbody]
  | round hbody _ ih =>
    obtain ⟨rounds, hrounds⟩ := ih
    refine ⟨rounds + 1, fun fuel hfuel => ?_⟩
    obtain ⟨fuel, rfl⟩ := Nat.exists_eq_add_of_le' (Nat.le_trans (Nat.le_add_left 1 _) hfuel)
    show (match body _ with | .inl r => some r | .inr s' => Loops.run body fuel s') = _
    rw [hbody]
    exact hrounds fuel (Nat.le_of_succ_le_succ hfuel)

/-- **Invariants.** What holds before a round and after it holds when the loop is left. -/
theorem Returns.rule {inv : σ → Prop} {post : ρ → Prop} (h : Returns body s r) (hstart : inv s)
    (hround : ∀ s s', inv s → body s = .inr s' → inv s')
    (hleave : ∀ s r, inv s → body s = .inl r → post r) : post r := by
  induction h with
  | leave hbody => exact hleave _ _ hstart hbody
  | round hbody _ ih => exact ih (hround _ _ hstart hbody)

/-- **Variants.** A loop in which a number decreases with each round is left. -/
theorem returns_of_variant {inv : σ → Prop} (variant : σ → ℕ) (hstart : inv s)
    (hround : ∀ s s', inv s → body s = .inr s' → inv s' ∧ variant s' < variant s) :
    ∃ r, Returns body s r := by
  induction hn : variant s using Nat.strongRecOn generalizing s with
  | ind n ih =>
    cases hbody : body s with
    | inl r => exact ⟨r, .leave hbody⟩
    | inr s' =>
      obtain ⟨hinv, hlt⟩ := hround s s' hstart hbody
      obtain ⟨r, hreturns⟩ := ih (variant s') (hn ▸ hlt) hinv rfl
      exact ⟨r, .round hbody hreturns⟩

/-- **Total correctness** from an invariant and a variant. -/
theorem total (inv : σ → Prop) {post : ρ → Prop} (variant : σ → ℕ) (hstart : inv s)
    (hround : ∀ s s', inv s → body s = .inr s' → inv s' ∧ variant s' < variant s)
    (hleave : ∀ s r, inv s → body s = .inl r → post r) : ∃ r, Returns body s r ∧ post r := by
  obtain ⟨r, hreturns⟩ := returns_of_variant variant hstart hround
  exact ⟨r, hreturns, hreturns.rule hstart (fun s s' hs hbody => (hround s s' hs hbody).1) hleave⟩

end Loops
