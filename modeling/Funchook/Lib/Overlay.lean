import Mathlib.Data.List.Basic

/-!
# Changes on top of each other

A change puts values at some places of a memory, and has saved a value for each of them. Changes
are made and undone one at a time. When each has saved what it found, undoing one that no newer
change overlaps leaves the others as if it had never been made.
-/

namespace Overlay

variable {α β ι : Type*}

/-- What a change puts where, and what it has saved. -/
structure Change (α β : Type*) where
  put : α → Option β
  saved : α → Option β

namespace Change

/-- The change that changes nothing. -/
def nothing : Change α β := ⟨fun _ => none, fun _ => none⟩

def Covers (c : Change α β) (a : α) : Prop := (c.saved a).isSome = true

def make (c : Change α β) (m : α → β) (a : α) : β := (c.put a).getD (m a)

def undo (c : Change α β) (m : α → β) (a : α) : β := (c.saved a).getD (m a)

/-- The change puts nothing where it has not saved a value. -/
def Complete (c : Change α β) : Prop := ∀ a, (c.put a).isSome = true → c.Covers a

/-- What the change has saved is what `m` holds. -/
def Found (c : Change α β) (m : α → β) : Prop := ∀ a b, c.saved a = some b → m a = b

variable {c : Change α β} {m : α → β} {a : α}

theorem make_of_not_covers (hc : c.Complete) (ha : ¬ c.Covers a) : c.make m a = m a := by
  cases hput : c.put a with
  | none => rw [make, hput, Option.getD_none]
  | some b => exact absurd (hc a (by rw [hput]; rfl)) ha

theorem undo_of_not_covers (ha : ¬ c.Covers a) : c.undo m a = m a := by
  have hsaved : c.saved a = none := Option.not_isSome_iff_eq_none.mp ha
  rw [undo, hsaved, Option.getD_none]

theorem undo_of_found {m' : α → β} (hc : c.Found m) (ha : c.Covers a) : c.undo m' a = m a := by
  obtain ⟨b, hb⟩ := Option.isSome_iff_exists.mp ha
  rw [undo, hb, Option.getD_some, hc a b hb]

end Change

/-- The changes of a list made on `m`, the newest at the head. -/
def layers : List (Change α β) → (α → β) → α → β
  | [], m => m
  | c :: cs, m => c.make (layers cs m)

/-- Every change has saved what the changes below it had left. -/
def Saved : List (Change α β) → (α → β) → Prop
  | [], _ => True
  | c :: cs, m => (c.Complete ∧ c.Found (layers cs m)) ∧ Saved cs m

/-- No newer change covers a place of `c`. -/
def OnTop (c : Change α β) (newer : List (Change α β)) : Prop :=
  ∀ d ∈ newer, ∀ a, c.Covers a → ¬ d.Covers a

variable {c : Change α β} {newer older cs : List (Change α β)} {m : α → β} {a : α}

theorem Saved.of_append (h : Saved (newer ++ older) m) : Saved older m := by
  induction newer with
  | nil => exact h
  | cons d newer ih => exact ih h.2

/-- A change has no effect where it covers nothing. -/
theorem layers_without (h : Saved (newer ++ c :: older) m) (ha : ¬ c.Covers a) :
    layers (newer ++ c :: older) m a = layers (newer ++ older) m a := by
  induction newer with
  | nil => exact Change.make_of_not_covers h.1.1 ha
  | cons d newer ih =>
    exact congrArg (d.put a).getD (ih h.2)

/-- **Undoing a change** that no newer one overlaps takes it out of the list. -/
theorem undo_layers (h : Saved (newer ++ c :: older) m) (htop : OnTop c newer) :
    c.undo (layers (newer ++ c :: older) m) = layers (newer ++ older) m := by
  have hc : c.Complete ∧ c.Found (layers older m) := h.of_append.1
  funext a
  by_cases ha : c.Covers a
  · have hnewer : ∀ d ∈ newer, ¬ d.Covers a := fun d hd => htop d hd a ha
    rw [Change.undo_of_found hc.2 ha]
    induction newer with
    | nil => rfl
    | cons d newer ih =>
      have hd := Change.make_of_not_covers (m := layers (newer ++ older) m) h.1.1
        (hnewer d List.mem_cons_self)
      exact (ih h.2 (fun e he => htop e (List.mem_cons_of_mem d he)) fun e he =>
        hnewer e (List.mem_cons_of_mem d he)).trans hd.symm
  · rw [Change.undo_of_not_covers ha, layers_without h ha]

/-- What the newer changes have saved stays what they would have found. -/
theorem Saved.without (h : Saved (newer ++ c :: older) m) (htop : OnTop c newer) :
    Saved (newer ++ older) m := by
  induction newer with
  | nil => exact h.2
  | cons d newer ih =>
    have htop' : OnTop c newer := fun e he => htop e (List.mem_cons_of_mem d he)
    refine ⟨⟨h.1.1, fun a b hsaved => ?_⟩, ih h.2 htop'⟩
    have hd : d.Covers a := by rw [Change.Covers, hsaved]; rfl
    have hsame := layers_without h.2 fun ha => htop d List.mem_cons_self a ha hd
    exact hsame.symm.trans (h.1.2 a b hsaved)

/-! ## Changes by name -/

section Names

variable [DecidableEq ι] {change : ι → Change α β} {order : List ι} {i : ι}

/-- The names in front of `i`. -/
def newerThan (order : List ι) (i : ι) : List ι := order.takeWhile fun j => decide (j ≠ i)

theorem newerThan_split (h : i ∈ order) :
    ∃ older, order = newerThan order i ++ i :: older ∧
      order.erase i = newerThan order i ++ older := by
  induction order with
  | nil => cases h
  | cons j order ih =>
    by_cases hj : j = i
    · subst hj
      refine ⟨order, ?_, ?_⟩ <;> simp [newerThan]
    · obtain ⟨older, horder, herase⟩ := ih ((List.mem_cons.mp h).resolve_left fun h => hj h.symm)
      have hnewer : newerThan (j :: order) i = j :: newerThan order i := by
        simp [newerThan, hj]
      refine ⟨older, ?_, ?_⟩
      · rw [hnewer, List.cons_append, ← horder]
      · rw [hnewer, List.cons_append, ← herase, List.erase_cons_tail (by simpa using hj)]

/-- **Undoing the change of a name** that no newer one overlaps. -/
theorem undo_name (h : Saved (order.map change) m) (hi : i ∈ order)
    (htop : OnTop (change i) ((newerThan order i).map change)) :
    (change i).undo (layers (order.map change) m) = layers ((order.erase i).map change) m ∧
      Saved ((order.erase i).map change) m := by
  obtain ⟨older, horder, herase⟩ := newerThan_split hi
  have hmap : order.map change =
      (newerThan order i).map change ++ change i :: older.map change := by
    rw [← List.map_cons, ← List.map_append, ← horder]
  rw [hmap] at h ⊢
  rw [herase, List.map_append]
  exact ⟨undo_layers h htop, h.without htop⟩

end Names

end Overlay
