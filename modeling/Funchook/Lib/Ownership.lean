import Mathlib.Data.Set.Lattice
import Mathlib.Logic.Function.Basic

/-!
# Owners of a resource

Parts of a resource are held; some were held from the start, the others belong to owners. An owner
acquires what nobody holds and releases all it owns. No part has two owners, and none is held that
nobody owns unless something has been lost.
-/

namespace Ownership

variable {α ι : Type*} [DecidableEq ι]

/-- What owners own is held, was not held at the start and has one owner. -/
structure Accounted (base held : Set α) (owns : ι → Set α) : Prop where
  start : base ⊆ held
  owned : ∀ i, owns i ⊆ held
  foreign : ∀ i, ∀ a ∈ owns i, a ∉ base
  separate : ∀ i j, i ≠ j → ∀ a ∈ owns i, a ∉ owns j

/-- Everything held was held at the start or has an owner. -/
def Complete (base held : Set α) (owns : ι → Set α) : Prop := held ⊆ base ∪ ⋃ i, owns i

variable {base held held' new : Set α} {owns : ι → Set α} {i : ι}

omit [DecidableEq ι] in
theorem accounted_start (base : Set α) : Accounted base base (fun _ : ι => ∅) where
  start := subset_rfl
  owned := fun _ => Set.empty_subset _
  foreign := fun _ _ ha => ha.elim
  separate := fun _ _ _ _ ha => ha.elim

omit [DecidableEq ι] in
theorem complete_start (base : Set α) : Complete base base (fun _ : ι => ∅) :=
  Set.subset_union_left

omit [DecidableEq ι] in
/-- Nothing changes for the owners when more is held. -/
theorem Accounted.grow (h : Accounted base held owns) (hsub : held ⊆ held') :
    Accounted base held' owns :=
  ⟨h.start.trans hsub, fun i => (h.owned i).trans hsub, h.foreign, h.separate⟩

theorem mem_update {a : α} {j : ι} {s : Set α} (h : a ∈ Function.update owns i s j) :
    j = i ∧ a ∈ s ∨ j ≠ i ∧ a ∈ owns j := by
  by_cases hj : j = i
  · subst hj
    rw [Function.update_self] at h
    exact Or.inl ⟨rfl, h⟩
  · rw [Function.update_of_ne hj] at h
    exact Or.inr ⟨hj, h⟩

/-- **Acquiring** what nobody holds. -/
theorem Accounted.acquire (h : Accounted base held owns) (i : ι) (hnew : ∀ a ∈ new, a ∉ held) :
    Accounted base (held ∪ new) (Function.update owns i (owns i ∪ new)) := by
  have hout : ∀ a ∈ new, ∀ j, a ∉ owns j := fun a ha j ho =>
    hnew a ha (h.owned j ho)
  refine ⟨h.start.trans Set.subset_union_left, fun j a ha => ?_, fun j a ha hbase => ?_,
    fun j k hjk a hmem hmem' => ?_⟩
  · rcases mem_update ha with ⟨-, ha | ha⟩ | ⟨-, ha⟩
    · exact Or.inl (h.owned i ha)
    · exact Or.inr ha
    · exact Or.inl (h.owned j ha)
  · rcases mem_update ha with ⟨-, ha | ha⟩ | ⟨-, ha⟩
    · exact h.foreign i a ha hbase
    · exact hnew a ha (h.start hbase)
    · exact h.foreign j a ha hbase
  · have hseparate := h.separate j k hjk a
    rcases mem_update hmem with ⟨hj, ha⟩ | ⟨-, ha⟩ <;>
      rcases mem_update hmem' with ⟨hk, ha'⟩ | ⟨-, ha'⟩
    · exact hjk (hj.trans hk.symm)
    · rcases ha with ha | ha
      · exact hseparate (hj ▸ ha) ha'
      · exact hout a ha k ha'
    · rcases ha' with ha' | ha'
      · exact hseparate ha (hk ▸ ha')
      · exact hout a ha' j ha
    · exact hseparate ha ha'

theorem Complete.acquire (h : Complete base held owns) (i : ι) :
    Complete base (held ∪ new) (Function.update owns i (owns i ∪ new)) := by
  have howner : ∀ a ∈ owns i ∪ new, a ∈ ⋃ j, Function.update owns i (owns i ∪ new) j :=
    fun a ha => Set.mem_iUnion.mpr ⟨i, by rwa [Function.update_self]⟩
  rintro a (ha | ha)
  · rcases h ha with hbase | hown
    · exact Or.inl hbase
    · obtain ⟨j, hj⟩ := Set.mem_iUnion.mp hown
      by_cases hji : j = i
      · exact Or.inr (howner a (Or.inl (hji ▸ hj)))
      · exact Or.inr (Set.mem_iUnion.mpr ⟨j, by rwa [Function.update_of_ne hji]⟩)
  · exact Or.inr (howner a (Or.inr ha))

/-- **Releasing** what one owner owns, where some of it may stay held. -/
theorem Accounted.release (h : Accounted base held owns) (i : ι) (hkeep : held \ owns i ⊆ held') :
    Accounted base held' (Function.update owns i ∅) := by
  refine ⟨fun a ha => hkeep ⟨h.start ha, fun ho => h.foreign i a ho ha⟩, fun j a ha => ?_,
    fun j a ha => ?_, fun j k hjk a ha ha' => ?_⟩
  · rcases mem_update ha with ⟨-, ha⟩ | ⟨hj, ha⟩
    · cases ha
    · exact hkeep ⟨h.owned j ha, h.separate j i hj a ha⟩
  · rcases mem_update ha with ⟨-, ha⟩ | ⟨-, ha⟩
    · cases ha
    · exact h.foreign j a ha
  · rcases mem_update ha with ⟨-, ha⟩ | ⟨-, ha⟩
    · cases ha
    · rcases mem_update ha' with ⟨-, ha'⟩ | ⟨-, ha'⟩
      · cases ha'
      · exact h.separate j k hjk a ha ha'

/-- When nothing of it stays held, nothing is lost. -/
theorem Complete.release (h : Complete base held owns) (i : ι) (hfree : held' ⊆ held \ owns i) :
    Complete base held' (Function.update owns i ∅) := by
  intro a ha
  obtain ⟨hheld, hout⟩ := hfree ha
  rcases h hheld with hbase | hown
  · exact Or.inl hbase
  · obtain ⟨j, hj⟩ := Set.mem_iUnion.mp hown
    refine Or.inr (Set.mem_iUnion.mpr ⟨j, ?_⟩)
    rw [Function.update_of_ne fun hji : j = i => hout (hji ▸ hj)]
    exact hj

omit [DecidableEq ι] in
/-- With no owner left, what is held is what was held at the start. -/
theorem held_eq_base (h : Accounted base held owns) (hcomplete : Complete base held owns)
    (hnone : ∀ i, owns i = ∅) : held = base := by
  refine Set.Subset.antisymm (fun a ha => (hcomplete ha).resolve_right fun hown => ?_) h.start
  obtain ⟨i, hi⟩ := Set.mem_iUnion.mp hown
  rw [hnone i] at hi
  exact hi

end Ownership
