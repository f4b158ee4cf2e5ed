import Mathlib.Data.List.Basic
import Mathlib.Tactic.Common

/-!
# Tilings of an interval

Labelled tiles follow one another without a gap, and every boundary is a multiple of a unit. The
tiles from a point on are the tiles behind it, with the tile that holds the point cut off there. A
walk along them, from the end of each tile to the next, meets every tile behind the point.
-/

namespace Tiling

/-- The numbers from `start` up to, but not including, `stop`. -/
structure Tile (α : Type*) where
  start : ℕ
  stop : ℕ
  label : α
  deriving DecidableEq, Repr

variable {α : Type*} {unit base point : ℕ} {t r : Tile α} {ts rs : List (Tile α)}

/-- The tiles are not empty and follow one another from `base` on. -/
def Tiles (unit : ℕ) : ℕ → List (Tile α) → Prop
  | _, [] => True
  | base, t :: ts => t.start = base ∧ base < t.stop ∧ unit ∣ t.stop ∧ Tiles unit t.stop ts

/-- The tiles from a point on. -/
def rests (point : ℕ) : List (Tile α) → List (Tile α)
  | [] => []
  | t :: ts =>
    if t.stop ≤ point then rests point ts else { t with start := max t.start point } :: ts

/-- The tile that holds a point at or above the base. -/
def holding (point : ℕ) (ts : List (Tile α)) : Option (Tile α) :=
  ts.find? fun t => decide (point < t.stop)

theorem Tiles.base_le (h : Tiles unit base ts) (ht : t ∈ ts) :
    base ≤ t.start ∧ t.start < t.stop ∧ unit ∣ t.stop := by
  induction ts generalizing base with
  | nil => cases ht
  | cons t' ts ih =>
    obtain ⟨hstart, hne, hdvd, hrest⟩ := h
    rcases List.mem_cons.mp ht with rfl | ht
    · exact ⟨Nat.le_of_eq hstart.symm, hstart ▸ hne, hdvd⟩
    · obtain ⟨hle, hlt, hdvd⟩ := ih hrest ht
      exact ⟨Nat.le_trans (Nat.le_of_lt hne) hle, hlt, hdvd⟩

theorem rests_base (h : Tiles unit base ts) : rests base ts = ts := by
  cases ts with
  | nil => rfl
  | cons t ts =>
    obtain ⟨rfl, hne, -⟩ := h
    rw [rests, if_neg (Nat.not_le_of_lt hne), Nat.max_self]

/-- What begins the tiles from a point on is the tile that holds it. -/
theorem holding_eq (h : Tiles unit base ts) (hbase : base ≤ point) :
    (holding point ts).map (fun t => { t with start := point }) = (rests point ts).head? := by
  induction ts generalizing base with
  | nil => rfl
  | cons t ts ih =>
    obtain ⟨rfl, hne, -, hrest⟩ := h
    by_cases hstop : t.stop ≤ point
    · rw [holding, List.find?_cons_of_neg (by simpa using hstop), rests, if_pos hstop]
      exact ih hrest hstop
    · rw [holding, List.find?_cons_of_pos (by simpa using hstop), rests, if_neg hstop]
      simp [Nat.max_eq_right hbase]

/-- The walk goes on with the tiles from the end of the first one on. -/
theorem rests_tail (h : Tiles unit base ts) (hrests : rests point ts = r :: rs) :
    point < r.stop ∧ rests r.stop ts = rs := by
  induction ts generalizing base with
  | nil => cases hrests
  | cons t ts ih =>
    obtain ⟨-, -, -, hrest⟩ := h
    by_cases hstop : t.stop ≤ point
    · rw [rests, if_pos hstop] at hrests
      obtain ⟨hlt, htail⟩ := ih hrest hrests
      exact ⟨hlt, by rw [rests, if_pos (Nat.le_trans hstop (Nat.le_of_lt hlt)), htail]⟩
    · rw [rests, if_neg hstop] at hrests
      obtain ⟨rfl, rfl⟩ := List.cons.inj hrests
      refine ⟨Nat.lt_of_not_le hstop, ?_⟩
      show (if t.stop ≤ t.stop then rests t.stop ts else _) = ts
      rw [if_pos (Nat.le_refl _), rests_base hrest]

/-- Every tile from a point on is the part of a tile at or above the point. -/
theorem mem_rests (h : Tiles unit base ts) :
    r ∈ rests point ts ↔ ∃ t ∈ ts, point < t.stop ∧ r = { t with start := max t.start point } := by
  induction ts generalizing base with
  | nil => simp [rests]
  | cons t ts ih =>
    obtain ⟨-, -, -, hrest⟩ := h
    by_cases hstop : t.stop ≤ point
    · rw [rests, if_pos hstop, ih hrest]
      simp [Nat.not_lt_of_le hstop]
    · have hlt := Nat.lt_of_not_le hstop
      have hsame : ∀ t' ∈ ts, point < t'.stop ∧ { t' with start := max t'.start point } = t' := by
        intro t' ht'
        obtain ⟨hle, hlt', -⟩ := hrest.base_le ht'
        refine ⟨by omega, ?_⟩
        rw [Nat.max_eq_left (by omega)]
      rw [rests, if_neg hstop, List.mem_cons]
      constructor
      · rintro (rfl | hr)
        · exact ⟨t, List.mem_cons_self, hlt, rfl⟩
        · exact ⟨r, List.mem_cons_of_mem t hr, (hsame r hr).1, (hsame r hr).2.symm⟩
      · rintro ⟨t', ht', hlt', rfl⟩
        rcases List.mem_cons.mp ht' with rfl | ht'
        · exact Or.inl rfl
        · rw [(hsame t' ht').2]
          exact Or.inr ht'

end Tiling
