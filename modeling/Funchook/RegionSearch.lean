import Mathlib.Data.List.Find
import Funchook.Lib.Blocks
import Funchook.Lib.Tiling
import Funchook.OsWindows

/-!
# The search for a free region on Windows (`os_windows.c`, 64-bit)

The loop of `alloc_page_info` over an address space that is tiled by free and used regions. It
ends, and the first region that the loop stops at decides what it returns. A free region that ends
before its next multiple of `allocation_unit` passes the comparison as well, because
`mbi.RegionSize - diff` wraps around.
-/

namespace Funchook.Windows

open Blocks Tiling
open X86 (PageSize)

variable {pageSize : PageSize}

/-! ## The address space -/

/-- A division of the address space into regions that are free or used; a tile is labelled with
`mbi.State == MEM_FREE`. -/
structure AddressSpace (pageSize : PageSize) where
  regions : List (Tile Bool)
  tiles : Tiles pageSize.toNat 0 regions
  bounded : ∀ r ∈ regions, r.stop < 2 ^ 64

def PageSize.size (pageSize : PageSize) : Addr 64 := BitVec.ofNat 64 pageSize.toNat

/-- The page of an address. -/
def pageOf (pageSize : PageSize) (a : Addr 64) : ℕ := a.toNat / pageSize.toNat * pageSize.toNat

/-- `VirtualQuery`: the rest of the region of an address, from its page on. Past the end it fails
with an error. -/
def AddressSpace.virtualQuery (space : AddressSpace pageSize) (error : OsError) (a : Addr 64) :
    Except OsError MemoryBasicInformation :=
  match holding a.toNat space.regions with
  | some r =>
    let base := roundDown a (PageSize.size pageSize)
    .ok ⟨base, BitVec.ofNat 64 r.stop - base, r.label⟩
  | none => .error error

/-- The regions from the page of an address on. -/
def AddressSpace.met (space : AddressSpace pageSize) (a : Addr 64) : List (Tile Bool) :=
  rests (pageOf pageSize a) space.regions

variable (unit : AllocationUnit pageSize)

/-- A free region with room for a unit from its first multiple of `allocation_unit` on. -/
def Room (r : Tile Bool) : Prop := r.label = true ∧ up unit.toNat r.start + unit.toNat ≤ r.stop

/-- A free region that ends before its first multiple of `allocation_unit`. -/
def Short (r : Tile Bool) : Prop := r.label = true ∧ r.stop < up unit.toNat r.start

instance (r : Tile Bool) : Decidable (Room unit r) := inferInstanceAs (Decidable (_ ∧ _))

instance (r : Tile Bool) : Decidable (Short unit r) := inferInstanceAs (Decidable (_ ∧ _))

/-- The regions that the loop stops at. -/
def stopsAt (r : Tile Bool) : Bool := decide (Room unit r ∨ Short unit r)

/-- A unit at `a` that lies in one free region, at or above the page of the first hint. -/
def FreeUnit (space : AddressSpace pageSize) (start : Addr 64) (a : ℕ) : Prop :=
  unit.toNat ∣ a ∧ pageOf pageSize start ≤ a ∧
    ∃ r ∈ space.regions, r.label = true ∧ r.start ≤ a ∧ a + unit.toNat ≤ r.stop

/-! ## One region -/

variable {unit}

theorem stopsAt_iff {r : Tile Bool} : stopsAt unit r = true ↔ Room unit r ∨ Short unit r :=
  decide_eq_true_iff

theorem unit_size_toNat : unit.size.toNat = 2 ^ unit.log := by
  have hlog : unit.log < 64 := Nat.lt_trans unit.upper (by decide)
  rw [AllocationUnit.size, AllocationUnit.toNat, BitVec.toNat_ofNat,
    Nat.mod_eq_of_lt (Nat.pow_lt_pow_right (by decide) hlog)]

variable (unit) in
theorem unit_pos : 0 < unit.toNat := Nat.two_pow_pos _

variable (unit) in
theorem unit_lt : unit.toNat < 2 ^ 32 := Nat.pow_lt_pow_right (by decide) unit.upper

theorem pageSize_size_toNat : (PageSize.size pageSize).toNat = 2 ^ pageSize.log := by
  have hlog : pageSize.log < 64 := Nat.lt_of_le_of_lt pageSize.upper (by decide)
  rw [PageSize.size, PageSize.toNat, BitVec.toNat_ofNat,
    Nat.mod_eq_of_lt (Nat.pow_lt_pow_right (by decide) hlog)]

variable (unit) in
/-- **One round.** The loop stops at a region with room, and at a short one. -/
theorem roomFor_region {base stop : ℕ} (hne : base < stop) (hstop : stop < 2 ^ 64) (free : Bool) :
    roomFor unit ⟨BitVec.ofNat 64 base, BitVec.ofNat 64 stop - BitVec.ofNat 64 base, free⟩ =
      if stopsAt unit ⟨base, stop, free⟩ then some (BitVec.ofNat 64 (up unit.toNat base))
      else none := by
  have hunit := unit_lt unit
  have hle := le_up (unit_pos unit) base
  have hlt := up_lt (unit_pos unit) base
  have hbase : (BitVec.ofNat 64 base).toNat = base := by
    rw [BitVec.toNat_ofNat, Nat.mod_eq_of_lt (by omega)]
  have hsize : unit.size.toNat = unit.toNat := unit_size_toNat
  have haddr : roundUp (BitVec.ofNat 64 base) unit.size = BitVec.ofNat 64 (up unit.toNat base) := by
    apply BitVec.eq_of_toNat_eq
    rw [roundUp, toNat_add_sub_one_and_not unit_size_toNat, hbase, BitVec.toNat_ofNat]
    rfl
  have hdiff : (BitVec.ofNat 64 (up unit.toNat base) - BitVec.ofNat 64 base).toNat =
      up unit.toNat base - base := by
    rw [BitVec.toNat_sub, hbase, BitVec.toNat_ofNat]
    omega
  have hnonneg : 0 ≤ (BitVec.ofNat 64 (up unit.toNat base) - BitVec.ofNat 64 base).toInt := by
    rw [BitVec.toInt_eq_toNat_cond, if_pos (by omega)]
    exact Int.natCast_nonneg _
  have hregion : (BitVec.ofNat 64 stop - BitVec.ofNat 64 base).toNat = stop - base := by
    rw [BitVec.toNat_sub, hbase, BitVec.toNat_ofNat]
    omega
  -- the subtraction wraps around exactly when the region is short
  have hrest : unit.size.ule (BitVec.ofNat 64 stop - BitVec.ofNat 64 base -
      (BitVec.ofNat 64 (up unit.toNat base) - BitVec.ofNat 64 base)) =
        decide (up unit.toNat base + unit.toNat ≤ stop ∨ stop < up unit.toNat base) := by
    rw [BitVec.ule, hsize, BitVec.toNat_sub, hregion, hdiff]
    apply decide_eq_decide.mpr
    by_cases hshort : stop < up unit.toNat base
    · omega
    · omega
  cases free with
  | false => simp [roomFor, stopsAt, Room, Short]
  | true =>
    unfold roomFor
    dsimp only
    rw [if_pos rfl, haddr, if_pos hnonneg, hrest]
    simp [stopsAt, Room, Short]

/-! ## The walk -/

theorem pageOf_le (a : Addr 64) : pageOf pageSize a ≤ a.toNat := Nat.div_mul_le_self ..

/-- The page of an address lies below a boundary of pages exactly when the address does. -/
theorem pageOf_lt_iff {a : Addr 64} {stop : ℕ} (h : pageSize.toNat ∣ stop) :
    pageOf pageSize a < stop ↔ a.toNat < stop := by
  have hpos : 0 < pageSize.toNat := Nat.two_pow_pos _
  constructor
  · intro hlt
    obtain ⟨q, rfl⟩ := h
    rw [pageOf, Nat.mul_comm] at hlt
    have hq := Nat.lt_of_mul_lt_mul_left hlt
    rw [Nat.mul_comm]
    exact (Nat.div_lt_iff_lt_mul hpos).mp hq
  · intro hlt
    exact Nat.lt_of_le_of_lt (pageOf_le a) hlt

theorem holding_pageOf (space : AddressSpace pageSize) (a : Addr 64) :
    holding (pageOf pageSize a) space.regions = holding a.toNat space.regions := by
  unfold holding
  apply List.find?_congr
  intro r hr
  exact decide_eq_decide.mpr (pageOf_lt_iff (space.tiles.base_le hr).2.2)

/-- **What `VirtualQuery` answers** is the first of the regions met. -/
theorem virtualQuery_eq (space : AddressSpace pageSize) (error : OsError) (a : Addr 64) :
    space.virtualQuery error a =
      match space.met a with
      | [] => .error error
      | r :: _ => .ok ⟨BitVec.ofNat 64 r.start,
          BitVec.ofNat 64 r.stop - BitVec.ofNat 64 r.start, r.label⟩ := by
  have hhead := holding_eq space.tiles (Nat.zero_le (pageOf pageSize a))
  have hbase : roundDown a (PageSize.size pageSize) = BitVec.ofNat 64 (pageOf pageSize a) := by
    apply BitVec.eq_of_toNat_eq
    rw [roundDown, toNat_and_not_sub_one pageSize_size_toNat, BitVec.toNat_ofNat,
      Nat.mod_eq_of_lt (Nat.lt_of_le_of_lt (pageOf_le a) a.isLt)]
    rfl
  rw [holding_pageOf] at hhead
  unfold AddressSpace.virtualQuery AddressSpace.met
  cases hrests : rests (pageOf pageSize a) space.regions with
  | nil =>
    rw [hrests] at hhead
    rw [Option.map_eq_none_iff.mp hhead]
  | cons r rs =>
    rw [hrests] at hhead
    obtain ⟨t, ht, rfl⟩ := Option.map_eq_some_iff.mp hhead
    rw [ht]
    simp only [hbase]

/-- The regions met from the end of the first one on are the others. -/
theorem met_stop {space : AddressSpace pageSize} {a : Addr 64} {r : Tile Bool}
    {rs : List (Tile Bool)} (h : space.met a = r :: rs) :
    r.start < r.stop ∧ r.stop < 2 ^ 64 ∧ space.met (BitVec.ofNat 64 r.stop) = rs := by
  have hmem : r ∈ space.met a := by
    rw [h]
    exact List.mem_cons_self
  obtain ⟨t, ht, hlt, hr⟩ := (mem_rests space.tiles).mp hmem
  obtain ⟨-, htail⟩ := rests_tail space.tiles h
  obtain ⟨-, hne, hdvd⟩ := space.tiles.base_le ht
  have hstop : r.stop = t.stop := by rw [hr]
  have hstart : r.start = max t.start (pageOf pageSize a) := by rw [hr]
  have hbound := space.bounded t ht
  refine ⟨by omega, by omega, ?_⟩
  have hvalue : (BitVec.ofNat 64 r.stop).toNat = r.stop := by
    rw [BitVec.toNat_ofNat, Nat.mod_eq_of_lt (by omega)]
  rw [AddressSpace.met, pageOf, hvalue, Nat.div_mul_cancel (hstop ▸ hdvd)]
  exact htail

variable {env : PageAllocEnv unit} {space : AddressSpace pageSize} {error : OsError}

/-- **The loop ends**, and the first region that it stops at decides the result. -/
theorem searchFree_eq (henv : env.virtualQuery = space.virtualQuery error) (hint : Addr 64) :
    ∃ result,
      (∀ rounds, (space.met hint).length < rounds → searchFree env rounds hint = some result) ∧
        match (space.met hint).find? (stopsAt unit) with
        | some r => result = .ok (BitVec.ofNat 64 (up unit.toNat r.start))
        | none => ∃ f, result = .error f := by
  -- the induction is on the regions met, one fewer after each round
  induction hmet : space.met hint generalizing hint with
  | nil =>
    have hquery := virtualQuery_eq space error hint
    rw [hmet] at hquery
    refine ⟨.error ⟨errorMemoryFunction, "Failed to execute VirtualQuery (addr=" ++
      fmtPointer hint ++ ", error=" ++ fmtError error ++ ")"⟩, ?_, ⟨_, rfl⟩⟩
    intro rounds hrounds
    obtain ⟨n, rfl⟩ := Nat.exists_eq_add_of_lt hrounds
    simp only [searchFree, henv, hquery]
  | cons r rs ih =>
    have hquery := virtualQuery_eq space error hint
    obtain ⟨hne, hstop, htail⟩ := met_stop hmet
    rw [hmet] at hquery
    have hround := roomFor_region unit hne hstop r.label
    by_cases hstops : stopsAt unit r
    · rw [List.find?_cons_of_pos hstops]
      rw [if_pos hstops] at hround
      refine ⟨_, ?_, rfl⟩
      intro rounds hrounds
      obtain ⟨n, rfl⟩ := Nat.exists_eq_add_of_lt hrounds
      simp only [searchFree, henv, hquery, hround]
    · rw [List.find?_cons_of_neg hstops]
      rw [if_neg hstops] at hround
      obtain ⟨result, hall, hresult⟩ := ih (BitVec.ofNat 64 r.stop) htail
      refine ⟨result, ?_, hresult⟩
      intro rounds hrounds
      obtain ⟨n, rfl⟩ := Nat.exists_eq_add_of_lt hrounds
      have hnext : (⟨BitVec.ofNat 64 r.start, BitVec.ofNat 64 r.stop - BitVec.ofNat 64 r.start,
          r.label⟩ : MemoryBasicInformation).stop = BitVec.ofNat 64 r.stop := by
        rw [MemoryBasicInformation.stop, BitVec.add_comm, BitVec.sub_add_cancel]
      simp only [searchFree, henv, hquery, hround, hnext]
      exact hall _ (by rw [List.length_cons]; omega)

/-! ## Which searches are sound -/

/-- A new hint is a unit in one free region from the page of the first hint on, and a failure says
that there is no such unit. -/
def SoundResult (unit : AllocationUnit pageSize) (space : AddressSpace pageSize)
    (start : Addr 64) : Except Failure (Addr 64) → Prop
  | .ok hint => FreeUnit unit space start hint.toNat
  | .error _ => ∀ a, ¬ FreeUnit unit space start a

/-- The loop ends with a sound result. -/
def SearchSound (env : PageAllocEnv unit) (space : AddressSpace pageSize) (start : Addr 64) :
    Prop :=
  ∃ enough result, (∀ rounds, enough ≤ rounds → searchFree env rounds start = some result) ∧
    SoundResult unit space start result

/-- The first region that stops the loop has room, or the unit above it happens to lie in a free
region. -/
def StopsWell (unit : AllocationUnit pageSize) (space : AddressSpace pageSize) (start : Addr 64) :
    Prop :=
  ∀ r, (space.met start).find? (stopsAt unit) = some r →
    Short unit r → FreeUnit unit space start (up unit.toNat r.start)

theorem mem_met {start : Addr 64} {r : Tile Bool} :
    r ∈ space.met start ↔ ∃ t ∈ space.regions, pageOf pageSize start < t.stop ∧
      r = { t with start := max t.start (pageOf pageSize start) } :=
  mem_rests space.tiles

/-- A region with room holds a free unit. -/
theorem freeUnit_of_room {start : Addr 64} {r : Tile Bool} (hr : r ∈ space.met start)
    (hroom : Room unit r) :
    FreeUnit unit space start (up unit.toNat r.start) ∧ up unit.toNat r.start < 2 ^ 64 := by
  obtain ⟨t, ht, -, rfl⟩ := mem_met.mp hr
  obtain ⟨hfree, hfits⟩ := hroom
  have hle := le_up (unit_pos unit) (max t.start (pageOf pageSize start))
  have hbound := space.bounded t ht
  have hpos := unit_pos unit
  have hpage := Nat.le_max_right t.start (pageOf pageSize start)
  have hstart := Nat.le_max_left t.start (pageOf pageSize start)
  dsimp only at hfits ⊢
  exact ⟨⟨dvd_up _ _, Nat.le_trans hpage hle, t, ht, hfree, Nat.le_trans hstart hle, hfits⟩,
    by omega⟩

/-- A free unit lies in a region met, which has room up to its end. -/
theorem FreeUnit.room {start : Addr 64} {a : ℕ} (h : FreeUnit unit space start a) :
    ∃ r ∈ space.met start, Room unit r ∧ r.start ≤ a := by
  obtain ⟨hdvd, hpage, t, ht, hfree, hstart, hfits⟩ := h
  have hpos := unit_pos unit
  have hmax : max t.start (pageOf pageSize start) ≤ a := Nat.max_le.mpr ⟨hstart, hpage⟩
  refine ⟨_, mem_met.mpr ⟨t, ht, by omega, rfl⟩, ⟨hfree, ?_⟩, hmax⟩
  exact Nat.le_trans (Nat.add_le_add_right (up_le hmax hdvd) _) hfits

theorem not_short_of_room {r : Tile Bool} (h : Room unit r) : ¬ Short unit r := by
  intro hshort
  have hfits := h.2
  have hlt := hshort.2
  omega

/-- The search does not wrap around to the unit at 0, which it would have met first. -/
theorem not_freeUnit_zero {start : Addr 64} {r : Tile Bool}
    (hfind : (space.met start).find? (stopsAt unit) = some r) (hshort : Short unit r) :
    ¬ FreeUnit unit space start 0 := by
  intro hfree
  have hpage : pageOf pageSize start = 0 := Nat.le_zero.mp hfree.2.1
  obtain ⟨r₀, hr₀, hroom, hzero⟩ := hfree.room
  have hmet : space.met start = space.regions := by
    rw [AddressSpace.met, hpage, rests_base space.tiles]
  rw [hmet] at hfind hr₀
  have htiles := space.tiles
  cases hregions : space.regions with
  | nil =>
    rw [hregions] at hr₀
    cases hr₀
  | cons t ts =>
    rw [hregions] at hr₀ htiles hfind
    obtain ⟨-, hne, -, hrest⟩ := htiles
    rcases List.mem_cons.mp hr₀ with rfl | hr₀
    · have hstops : stopsAt unit r₀ = true := stopsAt_iff.mpr (Or.inl hroom)
      rw [List.find?_cons_of_pos hstops] at hfind
      cases hfind
      exact not_short_of_room hroom hshort
    · have hle := (hrest.base_le hr₀).1
      omega

/-- **The search for a free region** is sound exactly when the first region that stops it is not
short, or the unit above a short one is free by chance. -/
theorem searchSound_iff (henv : env.virtualQuery = space.virtualQuery error) (start : Addr 64) :
    SearchSound env space start ↔ StopsWell unit space start := by
  obtain ⟨result, hall, hresult⟩ := searchFree_eq henv start
  have hsound : SearchSound env space start ↔ SoundResult unit space start result := by
    constructor
    · intro h
      obtain ⟨enough, result', hall', hfound⟩ := h
      have hsame := hall (enough + (space.met start).length + 1) (by omega)
      rw [hall' _ (by omega)] at hsame
      cases hsame
      exact hfound
    · intro h
      exact ⟨(space.met start).length + 1, result, fun rounds hrounds => hall rounds hrounds, h⟩
  rw [hsound]
  cases hfind : (space.met start).find? (stopsAt unit) with
  | none =>
    rw [hfind] at hresult
    obtain ⟨f, rfl⟩ := hresult
    constructor
    · intro _ r hr
      rw [hfind] at hr
      cases hr
    · intro _ a hfree
      obtain ⟨r, hr, hroom, -⟩ := hfree.room
      exact List.find?_eq_none.mp hfind r hr (stopsAt_iff.mpr (Or.inl hroom))
  | some r =>
    rw [hfind] at hresult
    cases hresult
    have hmem := List.mem_of_find?_eq_some hfind
    rcases stopsAt_iff.mp (List.find?_some hfind) with hroom | hshort
    · obtain ⟨hfree, hlt⟩ := freeUnit_of_room hmem hroom
      have hvalue : (BitVec.ofNat 64 (up unit.toNat r.start)).toNat = up unit.toNat r.start := by
        rw [BitVec.toNat_ofNat, Nat.mod_eq_of_lt hlt]
      refine iff_of_true (by rw [SoundResult, hvalue]; exact hfree) ?_
      intro r' hr' hshort
      cases hfind.symm.trans hr'
      exact absurd hshort (not_short_of_room hroom)
    · have hwell : StopsWell unit space start ↔
          FreeUnit unit space start (up unit.toNat r.start) := by
        constructor
        · intro h
          exact h r hfind hshort
        · intro h r' hr' _
          cases hfind.symm.trans hr'
          exact h
      rw [hwell, SoundResult, BitVec.toNat_ofNat]
      by_cases hlt : up unit.toNat r.start < 2 ^ 64
      · rw [Nat.mod_eq_of_lt hlt]
      · -- the multiple above the region is 2 ^ 64, and the hint is 0
        have hbound : up unit.toNat r.start ≤ 2 ^ 64 := by
          obtain ⟨t, ht, hpage, rfl⟩ := mem_met.mp hmem
          have hne := (space.tiles.base_le ht).2.1
          have hstop := space.bounded t ht
          apply up_le
          · exact Nat.max_le.mpr ⟨by omega, by omega⟩
          · exact Nat.pow_dvd_pow 2 (Nat.le_trans (Nat.le_of_lt unit.upper) (by decide))
        have htop : up unit.toNat r.start = 2 ^ 64 := by omega
        rw [htop]
        apply iff_of_false
        · exact not_freeUnit_zero hfind hshort
        · intro hfree
          obtain ⟨-, -, t, ht, -, -, hfits⟩ := hfree
          have hstop := space.bounded t ht
          omega

/-! ## A short region -/

theorem searchUnit_larger : (X86.sampleBuild .x86_64).pageSize.log < 16 := by decide

theorem searchUnit_upper : 16 < 32 := by decide

/-- Units of 64 KB over pages of 4 KB. -/
def searchUnit : AllocationUnit (X86.sampleBuild .x86_64).pageSize :=
  ⟨16, searchUnit_larger, searchUnit_upper⟩

/-- One free page behind a function, then used pages, and free pages far above. -/
def shortSpace : AddressSpace (X86.sampleBuild .x86_64).pageSize where
  regions := [⟨0, 0x411000, false⟩, ⟨0x411000, 0x412000, true⟩, ⟨0x412000, 0x500000, false⟩,
    ⟨0x500000, 0x7fffffff0000, true⟩]
  tiles := by
    show _ ∧ _ ∧ _ ∧ _ ∧ _ ∧ _ ∧ _ ∧ _ ∧ _ ∧ _ ∧ _ ∧ _ ∧ True
    decide
  bounded := by decide

/-- A division in which the free regions in front of the first unit are too small for one, but
reach its first byte. -/
def smallSpace : AddressSpace (X86.sampleBuild .x86_64).pageSize where
  regions := [⟨0, 0x403000, false⟩, ⟨0x403000, 0x415000, true⟩, ⟨0x415000, 0x500000, false⟩,
    ⟨0x500000, 0x7fffffff0000, true⟩]
  tiles := by
    show _ ∧ _ ∧ _ ∧ _ ∧ _ ∧ _ ∧ _ ∧ _ ∧ _ ∧ _ ∧ _ ∧ _ ∧ True
    decide
  bounded := by decide

def sampleSearchEnv (space : AddressSpace (X86.sampleBuild .x86_64).pageSize) :
    PageAllocEnv searchUnit where
  virtualQuery := space.virtualQuery ⟨87, "The parameter is incorrect."⟩
  reserve := fun _ => .error ⟨487, "Attempt to access invalid address."⟩
  commitInfo := none
  commitPage := none

instance (space : AddressSpace pageSize) (start : Addr 64) (a : ℕ) :
    Decidable (FreeUnit unit space start a) :=
  inferInstanceAs (Decidable (_ ∧ _ ∧ ∃ r ∈ space.regions, _))

/-- The hint is `0x420000`, which is used. -/
theorem shortSearch_unsound : ¬ SearchSound (sampleSearchEnv shortSpace) shortSpace 0x401000 := by
  intro h
  obtain ⟨enough, result, hall, hsound⟩ := h
  have hresult := hall (enough + 2) (Nat.le_add_right _ _)
  rw [show searchFree (sampleSearchEnv shortSpace) (enough + 2) 0x401000 =
    some (.ok 0x420000) from rfl] at hresult
  cases hresult
  revert hsound
  show ¬ FreeUnit searchUnit shortSpace 0x401000 _
  decide +kernel

/-- The search stops at the last region of the division, which has room. -/
theorem smallSpace_stopsWell : StopsWell searchUnit smallSpace 0x401000 := by
  intro r hr hshort
  have hfind : (smallSpace.met 0x401000).find? (stopsAt searchUnit) =
      some ⟨0x500000, 0x7fffffff0000, true⟩ := by decide +kernel
  cases hfind.symm.trans hr
  revert hshort
  decide +kernel

theorem searchSound_iff_short :
    (SearchSound (sampleSearchEnv shortSpace) shortSpace 0x401000 ↔
      StopsWell searchUnit shortSpace 0x401000) ∧
    SearchSound (sampleSearchEnv smallSpace) smallSpace 0x401000 :=
  ⟨searchSound_iff rfl 0x401000, (searchSound_iff rfl 0x401000).mpr smallSpace_stopsWell⟩

end Funchook.Windows
