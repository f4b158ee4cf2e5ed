import Mathlib.Data.List.Pairwise
import Funchook.Lib.ByteMemory

/-!
# Frames

A function saves values in cells at fixed offsets from a base address. Cells whose offsets are far
enough apart do not overlap, wherever the base is, and each of them holds its value when all are
saved. `Registers` is what a machine needs to have for that: registers of some sizes, and a memory.
Its transfers store registers in cells and load registers from cells.
-/

namespace Frame

open ByteMemory

variable {w : ℕ}

/-- An offset, which may be negative, and a number of bytes. -/
abbrev Extent (w : ℕ) := BitVec w × ℕ

/-- Each of two extents starts behind the end of the other, around the address space. -/
def Apart (r r' : Extent w) : Prop := r.2 ≤ (r'.1 - r.1).toNat ∧ r'.2 ≤ (r.1 - r'.1).toNat

instance (r r' : Extent w) : Decidable (Apart r r') := inferInstanceAs (Decidable (_ ∧ _))

theorem Apart.symm {r r' : Extent w} (h : Apart r r') : Apart r' r := ⟨h.2, h.1⟩

theorem Apart.disjoint {r r' : Extent w} (h : Apart r r') (base : BitVec w) :
    RangesDisjoint (base + r.1) r.2 (base + r'.1) r'.2 := by
  apply rangesDisjoint_of_distance
  · rw [show base + r'.1 - (base + r.1) = r'.1 - r.1 by grind]
    exact h.1
  · rw [show base + r.1 - (base + r'.1) = r.1 - r'.1 by grind]
    exact h.2

/-- A value of `size` bytes at an offset. -/
structure Cell (w : ℕ) where
  offset : BitVec w
  size : ℕ
  value : BitVec (8 * size)

def Cell.extent (c : Cell w) : Extent w := (c.offset, c.size)

def Cell.patch (base : BitVec w) (c : Cell w) : Patch w :=
  ⟨base + c.offset, leBytes c.size c.value⟩

/-- The memory after the cells are written in order. -/
def save (base : BitVec w) (cells : List (Cell w)) (m : Mem w) : Mem w :=
  writeAll (cells.map (Cell.patch base)) m

variable {base : BitVec w} {cells : List (Cell w)} {m m' : Mem w} {c : Cell w}

/-- Memory outside the cells is unchanged. -/
theorem save_frame {a : BitVec w} (h : ∀ c ∈ cells, ¬ InRange (base + c.offset) c.size a) :
    save base cells m a = m a := by
  apply writeAll_frame
  intro p hp hcovers
  obtain ⟨c, hc, rfl⟩ := List.mem_map.mp hp
  have hin : InRange (base + c.offset) (leBytes c.size c.value).length a := hcovers
  rw [leBytes_length] at hin
  exact h c hc hin

theorem save_of_apart {r : Extent w} (h : ∀ c ∈ cells, Apart c.extent r) {a : BitVec w}
    (ha : InRange (base + r.1) r.2 a) : save base cells m a = m a :=
  save_frame fun c hc hin => (h c hc).disjoint base a hin ha

/-- An extent that lies in the `n` bytes from `start` bytes below the base. -/
def Within (start : BitVec w) (n : ℕ) (e : Extent w) : Prop := (e.1 + start).toNat + e.2 ≤ n

instance (start : BitVec w) (n : ℕ) (e : Extent w) : Decidable (Within start n e) :=
  inferInstanceAs (Decidable (_ ≤ _))

theorem Within.inRange {start : BitVec w} {n : ℕ} {e : Extent w} (h : Within start n e)
    (hn : n ≤ 2 ^ w) {a : BitVec w} (ha : InRange (base + e.1) e.2 a) :
    InRange (base - start) n a := by
  refine inRange_of_inner (k := (e.1 + start).toNat) ?_ h hn
  rw [BitVec.ofNat_toNat, BitVec.setWidth_eq,
    show base - start + (e.1 + start) = base + e.1 by grind]
  exact ha

/-- An extent of a frame does not meet what is above the frame. -/
theorem Within.disjoint_above {start : BitVec w} {n k len : ℕ} {e : Extent w}
    (h : Within start n e) (hk : n ≤ k) (hlen : k + len ≤ 2 ^ w) (base : BitVec w) :
    RangesDisjoint (base + e.1) e.2 (base - start + BitVec.ofNat w k) len := by
  intro a ha habove
  have hframe := h.inRange (by omega) ha
  rw [← BitVec.add_zero (base - start)] at hframe
  exact rangesDisjoint_of_inner (k := 0) (by omega) hlen a hframe habove

theorem readWord_congr {n : ℕ} {a : BitVec w} (hn : n ≤ 2 ^ w)
    (h : ∀ b, InRange a n b → m' b = m b) : readWord n m' a = readWord n m a :=
  leWord_congr fun _ hi => h _ (inRange_add hi hn)

/-- **Saved values.** Every one of the cells holds its value. -/
theorem readWord_save (hapart : (cells.map Cell.extent).Pairwise Apart) (hc : c ∈ cells)
    (hsize : ∀ c ∈ cells, c.size ≤ 2 ^ w) :
    readWord c.size (save base cells m) (base + c.offset) = c.value := by
  induction cells generalizing m with
  | nil => cases hc
  | cons d cells ih =>
    rw [List.map_cons, List.pairwise_cons] at hapart
    rcases List.mem_cons.mp hc with rfl | hc
    · -- the cells behind it leave it alone
      have hlen : (leBytes c.size c.value).length ≤ 2 ^ w := by
        rw [leBytes_length]
        exact hsize c List.mem_cons_self
      rw [← (holds_write m (base + c.offset) hlen).word]
      apply readWord_congr (hsize c List.mem_cons_self)
      intro a ha
      show save base cells (write m (base + c.offset) (leBytes c.size c.value)) a = _
      refine save_of_apart (r := c.extent) ?_ ha
      intro e he
      exact (hapart.1 e.extent (List.mem_map_of_mem he)).symm
    · exact ih hapart.2 hc fun e he => hsize e (List.mem_cons_of_mem d he)

/-! ## Registers -/

/-- The registers `ρ` and the memory of the states `σ` of a machine. -/
structure Registers (w : ℕ) (σ ρ : Type*) where
  /-- in bytes -/
  size : ρ → ℕ
  value : σ → (r : ρ) → BitVec (8 * size r)
  set : σ → (r : ρ) → BitVec (8 * size r) → σ
  mem : σ → Mem w
  setMem : σ → Mem w → σ
  value_set_self : ∀ s r v, value (set s r v) r = v
  value_set_of_ne : ∀ s r v q, q ≠ r → value (set s r v) q = value s q
  mem_set : ∀ s r v, mem (set s r v) = mem s
  value_setMem : ∀ s m r, value (setMem s m) r = value s r
  mem_setMem : ∀ s m, mem (setMem s m) = m

namespace Registers

variable {σ ρ : Type*} (R : Registers w σ ρ)

/-- Store a register at an offset. -/
def store (base : BitVec w) (s : σ) (t : ρ × BitVec w) : σ :=
  R.setMem s (write (R.mem s) (base + t.2) (leBytes (R.size t.1) (R.value s t.1)))

/-- Load a register from an offset. -/
def load (base : BitVec w) (s : σ) (t : ρ × BitVec w) : σ :=
  R.set s t.1 (readWord (R.size t.1) (R.mem s) (base + t.2))

def storeAll (base : BitVec w) (ts : List (ρ × BitVec w)) (s : σ) : σ := ts.foldl (R.store base) s

def loadAll (base : BitVec w) (ts : List (ρ × BitVec w)) (s : σ) : σ := ts.foldl (R.load base) s

/-- The cell that a store fills. -/
def cell (s : σ) (t : ρ × BitVec w) : Cell w := ⟨t.2, R.size t.1, R.value s t.1⟩

variable {R} {s : σ} {ts : List (ρ × BitVec w)} {r : ρ} {off : BitVec w}

theorem storeAll_value (r : ρ) : R.value (R.storeAll base ts s) r = R.value s r := by
  induction ts generalizing s with
  | nil => rfl
  | cons t ts ih =>
    show R.value (R.storeAll base ts (R.store base s t)) r = R.value s r
    rw [ih]
    exact R.value_setMem s _ r

theorem storeAll_mem :
    R.mem (R.storeAll base ts s) = save base (ts.map (R.cell s)) (R.mem s) := by
  induction ts generalizing s with
  | nil => rfl
  | cons t ts ih =>
    show R.mem (R.storeAll base ts (R.store base s t)) = _
    have hcells : ts.map (R.cell (R.store base s t)) = ts.map (R.cell s) := by
      apply List.map_congr_left
      intro u _
      have hvalue : R.value (R.store base s t) u.1 = R.value s u.1 := R.value_setMem s _ u.1
      rw [cell, cell, hvalue]
    rw [ih, hcells, store, R.mem_setMem]
    rfl

theorem loadAll_mem : R.mem (R.loadAll base ts s) = R.mem s := by
  induction ts generalizing s with
  | nil => rfl
  | cons t ts ih =>
    show R.mem (R.loadAll base ts (R.load base s t)) = R.mem s
    rw [ih]
    exact R.mem_set s t.1 _

theorem loadAll_value_of_notMem (hr : r ∉ ts.map Prod.fst) :
    R.value (R.loadAll base ts s) r = R.value s r := by
  induction ts generalizing s with
  | nil => rfl
  | cons t ts ih =>
    rw [List.map_cons, List.mem_cons, not_or] at hr
    show R.value (R.loadAll base ts (R.load base s t)) r = R.value s r
    rw [ih hr.2]
    exact R.value_set_of_ne s t.1 _ r hr.1

/-- **Loaded values.** A register that is loaded once has the value at its offset. -/
theorem loadAll_value (hnodup : (ts.map Prod.fst).Nodup) (hmem : (r, off) ∈ ts) :
    R.value (R.loadAll base ts s) r = readWord (R.size r) (R.mem s) (base + off) := by
  induction ts generalizing s with
  | nil => cases hmem
  | cons t ts ih =>
    rw [List.map_cons, List.nodup_cons] at hnodup
    show R.value (R.loadAll base ts (R.load base s t)) r = _
    rcases List.mem_cons.mp hmem with rfl | hmem
    · rw [loadAll_value_of_notMem hnodup.1]
      exact R.value_set_self s r _
    · rw [ih hnodup.2 hmem, load, R.mem_set]

/-- What no store changes, a sequence of them keeps. -/
theorem storeAll_keeps {α : Type*} {f : σ → α} (h : ∀ s m, f (R.setMem s m) = f s) :
    f (R.storeAll base ts s) = f s := by
  induction ts generalizing s with
  | nil => rfl
  | cons t ts ih => exact ih.trans (h s _)

theorem loadAll_keeps {α : Type*} {f : σ → α} (h : ∀ s r v, f (R.set s r v) = f s) :
    f (R.loadAll base ts s) = f s := by
  induction ts generalizing s with
  | nil => rfl
  | cons t ts ih => exact ih.trans (h s t.1 _)

end Registers

end Frame
