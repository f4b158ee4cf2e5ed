import Mathlib.Data.List.Nodup
import Mathlib.Logic.Function.Basic
import Mathlib.Logic.Function.Iterate

/-!
# Circular doubly linked lists

Every node has a link to the next node and one to the previous node. A ring runs from a head, which
is no member, through its members back to the head; the list of the members in the order of the
links stands for it. Inserting a node behind the head and unlinking a member keep a ring.
-/

namespace Ring

open Function

/-- The two links of every node. -/
structure Links (α : Type*) where
  next : α → α
  prev : α → α

variable {α : Type*} {k k' : Links α} {head x y : α} {l xs ys : List α}

/-- Every node of a list is linked with the one before it, the first one with `x`. -/
def Chain (k : Links α) : α → List α → Prop
  | _, [] => True
  | x, y :: ys => k.next x = y ∧ k.prev y = x ∧ Chain k y ys

/-- The members of the ring with a head, in the order of the links. -/
def IsRing (k : Links α) (head : α) (l : List α) : Prop :=
  (head :: l).Nodup ∧ Chain k head (l ++ [head])

/-! ## Chains -/

theorem chain_append : Chain k x (xs ++ y :: ys) ↔ Chain k x (xs ++ [y]) ∧ Chain k y ys := by
  induction xs generalizing x with
  | nil => simp [Chain, and_assoc]
  | cons z zs ih => simp [Chain, ih, and_assoc]

/-- A chain looks at the links to the next node of all its nodes but the last, and at the links to
the previous node of all but the first. -/
theorem Chain.congr (h : Chain k x ys) (hnext : ∀ a ∈ (x :: ys).dropLast, k'.next a = k.next a)
    (hprev : ∀ b ∈ ys, k'.prev b = k.prev b) : Chain k' x ys := by
  induction ys generalizing x with
  | nil => trivial
  | cons y ys ih =>
    obtain ⟨hx, hy, hrest⟩ := h
    rw [List.dropLast_cons_cons] at hnext
    refine ⟨?_, ?_, ih hrest ?_ ?_⟩
    · rw [hnext x List.mem_cons_self, hx]
    · rw [hprev y List.mem_cons_self, hy]
    · exact fun a ha => hnext a (List.mem_cons_of_mem x ha)
    · exact fun b hb => hprev b (List.mem_cons_of_mem y hb)

/-- The nodes of a chain but the last are linked with a node behind them. -/
theorem Chain.next_mem (h : Chain k x ys) (hy : y ∈ (x :: ys).dropLast) :
    k.next y ∈ ys ∧ k.prev (k.next y) = y := by
  induction ys generalizing x with
  | nil => cases hy
  | cons z zs ih =>
    obtain ⟨hx, hz, hrest⟩ := h
    rw [List.dropLast_cons_cons] at hy
    rcases List.mem_cons.mp hy with rfl | hy
    · rw [hx]
      exact ⟨List.mem_cons_self, hz⟩
    · obtain ⟨hmem, hprev⟩ := ih hrest hy
      exact ⟨List.mem_cons_of_mem z hmem, hprev⟩

/-- The nodes of a chain but the first are linked with a node before them. -/
theorem Chain.prev_mem (h : Chain k x ys) (hy : y ∈ ys) :
    k.prev y ∈ (x :: ys).dropLast ∧ k.next (k.prev y) = y := by
  induction ys generalizing x with
  | nil => cases hy
  | cons z zs ih =>
    obtain ⟨hx, hz, hrest⟩ := h
    rw [List.dropLast_cons_cons]
    rcases List.mem_cons.mp hy with rfl | hy
    · rw [hz]
      exact ⟨List.mem_cons_self, hx⟩
    · obtain ⟨hmem, hnext⟩ := ih hrest hy
      exact ⟨List.mem_cons_of_mem x hmem, hnext⟩

/-! ## Rings -/

theorem isRing_nil (hnext : k.next head = head) (hprev : k.prev head = head) : IsRing k head [] :=
  ⟨by simp, hnext, hprev, trivial⟩

/-- The links of a ring are inverse to each other. -/
theorem IsRing.inverse (h : IsRing k head l) (hx : x ∈ head :: l) :
    k.prev (k.next x) = x ∧ k.next (k.prev x) = x := by
  have hfront : x ∈ (head :: (l ++ [head])).dropLast := by
    rw [← List.cons_append, List.dropLast_concat]
    exact hx
  have hback : x ∈ l ++ [head] := by
    rcases List.mem_cons.mp hx with rfl | hx
    · simp
    · exact List.mem_append_left _ hx
  exact ⟨(h.2.next_mem hfront).2, (h.2.prev_mem hback).2⟩

/-! ## Walks along the links -/

/-- `x` is reached from the head. -/
def Reaches (k : Links α) (head x : α) : Prop := ∃ n, k.next^[n] head = x

theorem Chain.reaches (h : Chain k x ys) (hy : y ∈ ys) : Reaches k x y := by
  induction ys generalizing x with
  | nil => cases hy
  | cons z zs ih =>
    obtain ⟨hx, -, hrest⟩ := h
    rcases List.mem_cons.mp hy with rfl | hy
    · exact ⟨1, hx⟩
    · obtain ⟨n, hn⟩ := ih hrest hy
      refine ⟨n + 1, ?_⟩
      rw [iterate_succ_apply, hx, hn]

/-- **What is on a ring**: the nodes that a walk from the head meets. -/
theorem IsRing.reaches_iff (h : IsRing k head l) : Reaches k head x ↔ x ∈ head :: l := by
  constructor
  · rintro ⟨n, rfl⟩
    induction n with
    | zero => exact List.mem_cons_self
    | succ n ih =>
      rw [iterate_succ_apply']
      have hfront : k.next^[n] head ∈ (head :: (l ++ [head])).dropLast := by
        rw [← List.cons_append, List.dropLast_concat]
        exact ih
      have hmem := (h.2.next_mem hfront).1
      rcases List.mem_append.mp hmem with hmem | hmem
      · exact List.mem_cons_of_mem head hmem
      · rw [List.mem_singleton.mp hmem]
        exact List.mem_cons_self
  · intro hx
    apply h.2.reaches
    rcases List.mem_cons.mp hx with rfl | hx
    · simp
    · exact List.mem_append_left _ hx

/-! ## Inserting and unlinking -/

variable [DecidableEq α]

/-- `x->next = head->next; x->prev = head; head->next->prev = x; head->next = x` -/
def Links.insertBehind (k : Links α) (head x : α) : Links α :=
  let next := update k.next x (k.next head)
  let prev := update k.prev x head
  ⟨update next head x, update prev (next head) x⟩

/-- `x->next->prev = x->prev; x->prev->next = x->next` -/
def Links.unlink (k : Links α) (x : α) : Links α :=
  let prev := update k.prev (k.next x) (k.prev x)
  ⟨update k.next (prev x) (k.next x), prev⟩

/-- Unlinking a node from the middle of a chain whose nodes differ. -/
theorem chain_unlink {q : α} (h : Chain k head (xs ++ x :: q :: ys))
    (hnext : (head :: xs ++ x :: (q :: ys).dropLast).Nodup)
    (hprev : (xs ++ x :: q :: ys).Nodup) : Chain (k.unlink x) head (xs ++ q :: ys) := by
  have hlinks : k.next x = q ∧ k.prev q = x := by
    obtain ⟨-, hq, hx, -⟩ := chain_append.mp h
    exact ⟨hq, hx⟩
  have hxq : x ≠ q := by
    intro heq
    rw [List.nodup_append] at hprev
    simp [heq] at hprev
  have hunlink : ∀ a, (k.unlink x).prev a = if a = q then k.prev x else k.prev a := by
    intro a
    simp [Links.unlink, update_apply, hlinks.1]
  have hunlink' : ∀ a, (k.unlink x).next a = if a = k.prev x then q else k.next a := by
    intro a
    simp [Links.unlink, update_apply, hlinks.1, hxq]
  induction xs generalizing head with
  | nil =>
    obtain ⟨hx, hp, -, -, hrest⟩ := h
    refine ⟨by rw [hunlink', hp, if_pos rfl], by rw [hunlink, if_pos rfl, hp], ?_⟩
    apply hrest.congr
    · intro a ha
      rw [hunlink', if_neg]
      rintro rfl
      rw [hp] at ha
      simp only [List.nil_append, List.cons_append, List.nodup_cons, List.mem_cons] at hnext
      exact hnext.1 (Or.inr ha)
    · intro b hb
      rw [hunlink, if_neg]
      rintro rfl
      simp only [List.nil_append, List.nodup_cons] at hprev
      exact hprev.2.1 hb
  | cons z zs ih =>
    obtain ⟨hz, hp, hrest⟩ := h
    have hmem : k.prev x ∈ z :: zs := by
      have hfront := ((chain_append.mp hrest).1.prev_mem (List.mem_append_right _
        (List.mem_singleton.mpr rfl))).1
      rw [← List.cons_append, List.dropLast_concat] at hfront
      exact hfront
    simp only [List.cons_append, List.nodup_cons] at hnext hprev
    refine ⟨?_, ?_, ih hrest ?_ hprev.2⟩
    · rw [hunlink', if_neg, hz]
      rintro rfl
      apply hnext.1
      rw [← List.cons_append]
      exact List.mem_append_left _ hmem
    · rw [hunlink, if_neg, hp]
      rintro rfl
      exact hprev.1 (by simp)
    · simpa only [List.cons_append, List.nodup_cons] using hnext.2

theorem IsRing.insertBehind (h : IsRing k head l) (hx : x ∉ head :: l) :
    IsRing (k.insertBehind head x) head (x :: l) := by
  obtain ⟨hnodup, hchain⟩ := h
  simp only [List.mem_cons, not_or] at hx
  simp only [List.nodup_cons] at hnodup
  refine ⟨by simp [hnodup, hx, Ne.symm hx.1], ?_⟩
  have hnext : ∀ a, (k.insertBehind head x).next a =
      if a = head then x else if a = x then k.next head else k.next a := by
    intro a
    simp [Links.insertBehind, update_apply]
  have hprev : ∀ a, (k.insertBehind head x).prev a =
      if a = k.next head then x else if a = x then head else k.prev a := by
    intro a
    simp [Links.insertBehind, update_apply, Ne.symm hx.1]
  -- the node that was first comes second
  obtain ⟨y, ys, hys⟩ : ∃ y ys, l ++ [head] = y :: ys := by
    cases l with
    | nil => exact ⟨head, [], rfl⟩
    | cons y l => exact ⟨y, l ++ [head], rfl⟩
  have hmem : ∀ a ∈ y :: ys, a ≠ x := by
    rintro a ha rfl
    rw [← hys] at ha
    rcases List.mem_append.mp ha with ha | ha
    · exact hx.2 ha
    · exact hx.1 (List.mem_singleton.mp ha)
  have hdrop : (y :: ys).dropLast = l := by rw [← hys, List.dropLast_concat]
  have hys_nodup : (y :: ys).Nodup := by
    rw [← hys, List.nodup_append]
    exact ⟨hnodup.2, by simp, by
      rintro a ha b hb rfl
      exact hnodup.1 (List.mem_singleton.mp hb ▸ ha)⟩
  rw [hys] at hchain
  obtain ⟨hfirst, hback, hrest⟩ := hchain
  rw [List.cons_append, hys]
  refine ⟨by rw [hnext, if_pos rfl], ?_, ?_, ?_, ?_⟩
  · rw [hprev, hfirst, if_neg (Ne.symm (hmem y List.mem_cons_self)), if_pos rfl]
  · rw [hnext, if_neg hx.1, if_pos rfl, hfirst]
  · rw [hprev, hfirst, if_pos rfl]
  · apply hrest.congr
    · intro a ha
      rw [hdrop] at ha
      rw [hnext, if_neg, if_neg]
      · rintro rfl
        exact hx.2 ha
      · rintro rfl
        exact hnodup.1 ha
    · intro b hb
      rw [hprev, hfirst, if_neg, if_neg (hmem b (List.mem_cons_of_mem y hb))]
      rintro rfl
      exact (List.nodup_cons.mp hys_nodup).1 hb

theorem IsRing.unlink (h : IsRing k head l) (hx : x ∈ l) :
    IsRing (k.unlink x) head (l.erase x) := by
  obtain ⟨hnodup, hchain⟩ := h
  refine ⟨?_, ?_⟩
  · rw [List.nodup_cons] at hnodup ⊢
    exact ⟨fun hmem => hnodup.1 (List.mem_of_mem_erase hmem), hnodup.2.erase x⟩
  · obtain ⟨xs, ys, rfl⟩ := List.append_of_mem hx
    have hnot : x ∉ xs := by
      intro hmem
      rw [List.nodup_cons, List.nodup_append] at hnodup
      exact hnodup.2.2.2 x hmem x List.mem_cons_self rfl
    rw [List.erase_append_right _ hnot, List.erase_cons_head]
    -- the node behind `x`, which may be the head
    obtain ⟨q, zs, hzs⟩ : ∃ q zs, ys ++ [head] = q :: zs := by
      cases ys with
      | nil => exact ⟨head, [], rfl⟩
      | cons y ys => exact ⟨y, ys ++ [head], rfl⟩
    rw [List.append_assoc, List.cons_append, hzs] at hchain
    rw [List.append_assoc, hzs]
    apply chain_unlink hchain
    · rw [← hzs, List.dropLast_concat]
      exact hnodup
    · rw [← hzs, ← List.cons_append, ← List.append_assoc]
      rw [List.nodup_append_comm]
      exact hnodup

end Ring
