import Mathlib.Algebra.Ring.Nat
import Mathlib.Order.CompletePartialOrder
import Mathlib.Order.Interval.Set.Disjoint
import Mathlib.Tactic.Common

/-!
# Free pages between blocks

Half-open blocks of numbers in ascending order leave gaps. A page of a given size is free when it
touches no block. Two kinds of free pages are of interest: those that end where a block starts and
those that start where a block ends. Both sets are described along the list, with the end of the
last block passed, so that a scan of the list can be compared with them one block at a time.
-/

namespace Gaps

/-- The numbers from `lo` up to, but not including, `hi`. -/
structure Block where
  lo : ℕ
  hi : ℕ

/-- The blocks are not empty, lie above `prev` and follow one another. -/
def Ascending : ℕ → List Block → Prop
  | _, [] => True
  | prev, b :: bs => prev ≤ b.lo ∧ b.lo < b.hi ∧ Ascending b.hi bs

/-- The page of `size` numbers from `a` lies before or after every block. -/
def Free (size : ℕ) (bs : List Block) (a : ℕ) : Prop :=
  ∀ b ∈ bs, b.hi ≤ a ∨ a + size ≤ b.lo

/-- The free pages that end where a block starts. -/
def pagesBefore (size : ℕ) (bs : List Block) : Set ℕ :=
  {a | (∃ b ∈ bs, a + size = b.lo) ∧ Free size bs a}

/-- The free pages that start at `prev` or where a block ends. -/
def pagesAfter (size prev : ℕ) (bs : List Block) : Set ℕ :=
  {a | (a = prev ∨ ∃ b ∈ bs, a = b.hi) ∧ Free size bs a}

variable {size prev a : ℕ} {b : Block} {bs : List Block}

theorem ascending_of_pairwise (hpair : bs.Pairwise fun b c => b.hi ≤ c.lo)
    (hne : ∀ b ∈ bs, b.lo < b.hi) (hprev : ∀ b ∈ bs, prev ≤ b.lo) : Ascending prev bs := by
  induction bs generalizing prev with
  | nil => trivial
  | cons b bs ih =>
    obtain ⟨hb, hbs⟩ := List.pairwise_cons.mp hpair
    exact ⟨hprev b List.mem_cons_self, hne b List.mem_cons_self,
      ih hbs (fun c hc => hne c (List.mem_cons_of_mem b hc)) hb⟩

/-- Every block of an ascending list lies above its bound. -/
theorem Ascending.le_lo (h : Ascending prev bs) : ∀ c ∈ bs, prev ≤ c.lo ∧ c.lo < c.hi := by
  induction bs generalizing prev with
  | nil =>
    intro c hc
    cases hc
  | cons b bs ih =>
    intro c hc
    obtain ⟨hprev, hne, hrest⟩ := h
    rcases List.mem_cons.mp hc with rfl | hc
    · exact ⟨hprev, hne⟩
    · have hc := ih hrest c hc
      omega

theorem Free.disjoint (h : Free size bs a) (hb : b ∈ bs) :
    Disjoint (Set.Ico a (a + size)) (Set.Ico b.lo b.hi) := by
  rw [Set.Ico_disjoint_Ico]
  rcases h b hb with h | h <;> omega

theorem free_cons : Free size (b :: bs) a ↔ (b.hi ≤ a ∨ a + size ≤ b.lo) ∧ Free size bs a :=
  List.forall_mem_cons

/-- A page that ends before the first block of an ascending list is free. -/
theorem free_of_le (h : Ascending prev bs) (ha : a + size ≤ prev) : Free size bs a := by
  intro c hc
  have := (h.le_lo c hc).1
  exact Or.inr (by omega)

/-- **Pages before blocks.** Above `prev` they are the page before the first block, where it fits,
and those of the other blocks above the end of the first one. -/
theorem mem_pagesBefore_cons (h : Ascending prev (b :: bs)) :
    a ∈ pagesBefore size (b :: bs) ∧ prev ≤ a ↔
      a + size = b.lo ∧ prev ≤ a ∨ a ∈ pagesBefore size bs ∧ b.hi ≤ a := by
  obtain ⟨hprev, hne, hrest⟩ := h
  constructor
  · intro h
    obtain ⟨⟨⟨c, hc, hac⟩, hall⟩, ha⟩ := h
    obtain ⟨hfreeb, hfree⟩ := free_cons.mp hall
    rcases List.mem_cons.mp hc with rfl | hc
    · exact Or.inl ⟨hac, ha⟩
    · have hlo := (hrest.le_lo c hc).1
      exact Or.inr ⟨⟨⟨c, hc, hac⟩, hfree⟩, by omega⟩
  · intro h
    rcases h with ⟨hab, ha⟩ | ⟨⟨⟨c, hc, hac⟩, hfree⟩, ha⟩
    · have hfree : Free size bs a := free_of_le hrest (by omega)
      exact ⟨⟨⟨b, List.mem_cons_self, hab⟩, free_cons.mpr ⟨Or.inr (by omega), hfree⟩⟩, ha⟩
    · exact ⟨⟨⟨c, List.mem_cons_of_mem b hc, hac⟩, free_cons.mpr ⟨Or.inl ha, hfree⟩⟩, by omega⟩

/-- **Pages after blocks.** They are the one at `prev`, where it fits, and those of the list behind
the first block. -/
theorem mem_pagesAfter_cons (h : Ascending prev (b :: bs)) :
    a ∈ pagesAfter size prev (b :: bs) ↔
      a = prev ∧ prev + size ≤ b.lo ∨ a ∈ pagesAfter size b.hi bs := by
  obtain ⟨hprev, hne, hrest⟩ := h
  constructor
  · intro h
    obtain ⟨hend, hall⟩ := h
    obtain ⟨hfreeb, hfree⟩ := free_cons.mp hall
    rcases hend with rfl | ⟨c, hc, rfl⟩
    · exact Or.inl ⟨rfl, by omega⟩
    · rcases List.mem_cons.mp hc with rfl | hc
      · exact Or.inr ⟨Or.inl rfl, hfree⟩
      · exact Or.inr ⟨Or.inr ⟨c, hc, rfl⟩, hfree⟩
  · intro h
    rcases h with ⟨rfl, hfit⟩ | ⟨hend, hfree⟩
    · have hfree : Free size bs a := free_of_le hrest (by omega)
      exact ⟨Or.inl rfl, free_cons.mpr ⟨Or.inr hfit, hfree⟩⟩
    · have hba : b.hi ≤ a := by
        rcases hend with rfl | ⟨c, hc, rfl⟩
        · exact Nat.le_refl _
        · have := hrest.le_lo c hc
          omega
      refine ⟨Or.inr ?_, free_cons.mpr ⟨Or.inl hba, hfree⟩⟩
      rcases hend with rfl | ⟨c, hc, rfl⟩
      · exact ⟨b, List.mem_cons_self, rfl⟩
      · exact ⟨c, List.mem_cons_of_mem b hc, rfl⟩

theorem le_of_mem_pagesAfter (h : Ascending prev bs) (ha : a ∈ pagesAfter size prev bs) :
    prev ≤ a := by
  rcases ha.1 with rfl | ⟨c, hc, rfl⟩
  · exact Nat.le_refl _
  · have := h.le_lo c hc
    omega

end Gaps
