import Funchook.OsUnix
import Funchook.Lib.Gaps

/-!
# The free pages next to a function (`get_free_address`)

The scan of the process map keeps the last free page that ends at the start of a region below the
function, and stops at the first gap behind a region that ends above it. Proved: both candidates are
free pages within reach, an error means that no region ends above the function, and the candidates
are the nearest ones, except that the page right before a region is missed when the function is the
first byte of that region.
-/

namespace Funchook.Unix

open Gaps

def Region.block (r : Region) : Block := ⟨r.start.toNat, r.stop.toNat⟩

/-- A process map: ascending disjoint regions of whole pages, with a page left above them. -/
structure ProcessMap (pageSize : Addr 64) (regions : List Region) : Prop where
  ascending : regions.Pairwise fun r s => r.stop.toNat ≤ s.start.toNat
  nonempty : ∀ r ∈ regions, r.start.toNat < r.stop.toNat
  aligned : ∀ r ∈ regions, pageSize.toNat ∣ r.start.toNat ∧ pageSize.toNat ∣ r.stop.toNat
  room : ∀ r ∈ regions, r.stop.toNat + pageSize.toNat ≤ 2 ^ 64

/-! ## What the scan looks for -/

/-- The free pages from `prev` on that end where a block below `func` starts, within reach. -/
def pagesBelow (size prev func : ℕ) (bs : List Block) : Set ℕ :=
  {a | (a ∈ pagesBefore size bs ∧ prev ≤ a) ∧ a + size < func ∧ func < a + int32Max.toNat}

/-- The free pages above `func` that start at `prev` or where a block ends. -/
def pagesAbove (size prev func : ℕ) (bs : List Block) : Set ℕ :=
  {a | a ∈ pagesAfter size prev bs ∧ func < a}

/-- The candidates that a scan from `prev` ends with, when it starts with `before`. -/
structure Scanned (size prev func : ℕ) (bs : List Block) (before : Addr 64) (c : Candidates) :
    Prop where
  below : IsGreatest (pagesBelow size prev func bs) c.before.toNat ∨
    pagesBelow size prev func bs = ∅ ∧ c.before = before
  above : ∃ e, IsLeast (pagesAbove size prev func bs) e ∧
    c.after.toNat = if e < func + int32Max.toNat then e else 0

theorem mem_pagesBelow_cons {size prev func a : ℕ} {b : Block} {bs : List Block}
    (h : Ascending prev (b :: bs)) :
    a ∈ pagesBelow size prev func (b :: bs) ↔
      (a + size = b.lo ∧ prev ≤ a) ∧ b.lo < func ∧ func < a + int32Max.toNat ∨
        a ∈ pagesBelow size b.hi func bs := by
  unfold pagesBelow
  rw [Set.mem_ofPred_eq, mem_pagesBefore_cons h, Set.mem_ofPred_eq]
  constructor
  · intro h
    obtain ⟨hpage | hpage, hfunc, hnear⟩ := h
    · exact Or.inl ⟨hpage, hpage.1 ▸ hfunc, hnear⟩
    · exact Or.inr ⟨hpage, hfunc, hnear⟩
  · intro h
    rcases h with ⟨hpage, hfunc, hnear⟩ | ⟨hpage, hfunc, hnear⟩
    · exact ⟨Or.inl hpage, hpage.1 ▸ hfunc, hnear⟩
    · exact ⟨Or.inr hpage, hfunc, hnear⟩

theorem mem_pagesAbove_cons {size prev func a : ℕ} {b : Block} {bs : List Block}
    (h : Ascending prev (b :: bs)) :
    a ∈ pagesAbove size prev func (b :: bs) ↔
      (a = prev ∧ prev + size ≤ b.lo) ∧ func < a ∨ a ∈ pagesAbove size b.hi func bs := by
  unfold pagesAbove
  rw [Set.mem_ofPred_eq, mem_pagesAfter_cons h, Set.mem_ofPred_eq, or_and_right]

/-- Nothing below `func` is left once the scan has passed it. -/
theorem pagesBelow_eq_empty {size prev func : ℕ} {bs : List Block} (h : func ≤ prev) :
    pagesBelow size prev func bs = ∅ := by
  apply Set.eq_empty_of_forall_notMem
  intro a ha
  obtain ⟨⟨-, hprev⟩, hfunc, -⟩ := ha
  omega

theorem pagesBelow_nil (size prev func : ℕ) : pagesBelow size prev func [] = ∅ := by
  apply Set.eq_empty_of_forall_notMem
  intro a ha
  obtain ⟨b, hb, -⟩ := ha.1.1.1
  cases hb

/-- A page at `prev` above `func` is the lowest one. -/
theorem isLeast_prev {size prev func : ℕ} {bs : List Block} (hasc : Ascending prev bs)
    (hmem : prev ∈ pagesAfter size prev bs) (hfunc : func < prev) :
    IsLeast (pagesAbove size prev func bs) prev :=
  ⟨⟨hmem, hfunc⟩, fun _ ha => le_of_mem_pagesAfter hasc ha.1⟩

/-! ## The machine arithmetic of one round -/

theorem sub_toNat {x y : Addr 64} (h : y.toNat ≤ x.toNat) : (x - y).toNat = x.toNat - y.toNat :=
  BitVec.toNat_sub_of_le h

theorem ult_iff {x y : Addr 64} : x.ult y = true ↔ x.toNat < y.toNat := by
  rw [BitVec.ult, decide_eq_true_eq]

theorem candidateAfter_toNat {func prevEnd : Addr 64} (h : func.toNat < prevEnd.toNat) :
    (candidateAfter func prevEnd).toNat =
      if prevEnd.toNat < func.toNat + int32Max.toNat then prevEnd.toNat else 0 := by
  have hnear : (prevEnd - func).ult int32Max = true ↔
      prevEnd.toNat < func.toNat + int32Max.toNat := by
    rw [ult_iff, sub_toNat (Nat.le_of_lt h)]
    omega
  unfold candidateAfter
  by_cases hlt : prevEnd.toNat < func.toNat + int32Max.toNat
  · rw [if_pos (hnear.mpr hlt), if_pos hlt]
  · rw [if_neg (mt hnear.mp hlt), if_neg hlt]
    rfl

theorem fits_iff {pageSize prevEnd start : Addr 64}
    (hroom : prevEnd.toNat + pageSize.toNat < 2 ^ 64) :
    (prevEnd + pageSize).ule start = true ↔ prevEnd.toNat + pageSize.toNat ≤ start.toNat := by
  rw [BitVec.ule, decide_eq_true_eq, BitVec.toNat_add, Nat.mod_eq_of_lt hroom]

/-- The test for a candidate below the function. -/
theorem below_iff {pageSize start func : Addr 64} (hsize : pageSize.toNat ≤ start.toNat) :
    (start.ult func = true ∧ (func - (start - pageSize)).ult int32Max = true) ↔
      start.toNat < func.toNat ∧
        func.toNat < (start - pageSize).toNat + int32Max.toNat := by
  have hpage := sub_toNat hsize
  rw [ult_iff, ult_iff]
  apply and_congr_right
  intro hlt
  rw [sub_toNat (show (start - pageSize).toNat ≤ func.toNat by omega)]
  omega

/-! ## The scan -/

variable {pageSize : Addr 64}

/-- The regions left, from the end of the region passed last. -/
structure MapFrom (pageSize prevEnd : Addr 64) (regions : List Region) : Prop where
  ascending : Ascending prevEnd.toNat (regions.map Region.block)
  room : ∀ r ∈ regions, r.stop.toNat + pageSize.toNat ≤ 2 ^ 64

/-- One round that does not end the scan: `found` is the candidate after it. -/
theorem scanned_cons {size prev func : ℕ} {b : Block} {bs : List Block} {before found : Addr 64}
    {c : Candidates} (hasc : Ascending prev (b :: bs))
    (hgoes : ¬ (prev + size ≤ b.lo ∧ func < prev))
    (hnew : ∀ a, (a + size = b.lo ∧ prev ≤ a) ∧ b.lo < func ∧ func < a + int32Max.toNat →
      found.toNat = a)
    (hold : (∀ a, ¬ ((a + size = b.lo ∧ prev ≤ a) ∧ b.lo < func ∧ func < a + int32Max.toNat)) →
      found = before)
    (h : Scanned size b.hi func bs found c) : Scanned size prev func (b :: bs) before c := by
  have habove : pagesAbove size prev func (b :: bs) = pagesAbove size b.hi func bs := by
    ext a
    rw [mem_pagesAbove_cons hasc, or_iff_right]
    intro ha
    exact hgoes ⟨ha.1.2, ha.1.1 ▸ ha.2⟩
  refine ⟨?_, habove ▸ h.above⟩
  rcases h.below with hgreatest | ⟨hempty, hbefore⟩
  · refine Or.inl ⟨(mem_pagesBelow_cons hasc).mpr (Or.inr hgreatest.1), ?_⟩
    intro a ha
    rcases (mem_pagesBelow_cons hasc).mp ha with hfirst | hlater
    · have hhi : b.hi ≤ c.before.toNat := hgreatest.1.1.2
      have hne := hasc.2.1
      omega
    · exact hgreatest.2 hlater
  · by_cases hfound : ∃ a, (a + size = b.lo ∧ prev ≤ a) ∧ b.lo < func ∧ func < a + int32Max.toNat
    · obtain ⟨a, ha⟩ := hfound
      obtain rfl : c.before.toNat = a := by rw [hbefore, hnew a ha]
      refine Or.inl ⟨(mem_pagesBelow_cons hasc).mpr (Or.inl ha), ?_⟩
      intro a' ha'
      rcases (mem_pagesBelow_cons hasc).mp ha' with hfirst | hlater
      · omega
      · rw [hempty] at hlater
        exact hlater.elim
    · have hnone := not_exists.mp hfound
      refine Or.inr ⟨Set.eq_empty_of_forall_notMem ?_, hbefore.trans (hold hnone)⟩
      intro a ha
      rcases (mem_pagesBelow_cons hasc).mp ha with hfirst | hlater
      · exact hnone a hfirst
      · rw [hempty] at hlater
        exact hlater.elim

/-- **The scan.** From any point of the map it ends with the nearest free pages, and it fails only
where no region left ends above the function. -/
theorem getFreeAddressLoop_spec {func : Addr 64} {regions : List Region} {prevEnd before : Addr 64}
    (hmap : MapFrom pageSize prevEnd regions) :
    match getFreeAddressLoop pageSize func regions prevEnd before with
    | .ok c =>
      Scanned pageSize.toNat prevEnd.toNat func.toNat (regions.map Region.block) before c
    | .error _ => prevEnd.toNat ≤ func.toNat ∧ ∀ r ∈ regions, r.stop.toNat ≤ func.toNat := by
  induction regions generalizing prevEnd before with
  | nil =>
    rw [getFreeAddressLoop]
    by_cases hfunc : func.toNat < prevEnd.toNat
    · rw [if_pos (ult_iff.mpr hfunc)]
      refine ⟨Or.inr ⟨pagesBelow_nil _ _ _, rfl⟩, prevEnd.toNat, ?_, candidateAfter_toNat hfunc⟩
      exact isLeast_prev hmap.ascending ⟨Or.inl rfl, fun b hb => by cases hb⟩ hfunc
    · rw [if_neg (mt ult_iff.mp hfunc)]
      exact ⟨Nat.le_of_not_lt hfunc, fun r hr => by cases hr⟩
  | cons region regions ih =>
    obtain ⟨hasc, hroom⟩ := hmap
    have hstart : prevEnd.toNat ≤ region.start.toNat := hasc.1
    have hne : region.start.toNat < region.stop.toNat := hasc.2.1
    have hregion := hroom region List.mem_cons_self
    have hrest : MapFrom pageSize region.stop regions :=
      ⟨hasc.2.2, fun r hr => hroom r (List.mem_cons_of_mem region hr)⟩
    have hfits := @fits_iff pageSize prevEnd region.start (by omega)
    rw [getFreeAddressLoop]
    by_cases hfit : prevEnd.toNat + pageSize.toNat ≤ region.start.toNat
    · have hbelow := @below_iff pageSize region.start func (by omega)
      have hpage := sub_toNat (show pageSize.toNat ≤ region.start.toNat by omega)
      rw [if_pos (hfits.mpr hfit)]
      dsimp only
      by_cases hfunc : func.toNat < prevEnd.toNat
      · -- the gap behind the first region that ends above the function
        rw [if_pos (ult_iff.mpr hfunc), if_neg (mt hbelow.mp (by omega))]
        refine ⟨Or.inr ⟨pagesBelow_eq_empty (Nat.le_of_lt hfunc), rfl⟩, prevEnd.toNat, ?_,
          candidateAfter_toNat hfunc⟩
        have hmem := (@mem_pagesAfter_cons pageSize.toNat _ prevEnd.toNat _ _ hasc).mpr
          (Or.inl ⟨rfl, hfit⟩)
        exact isLeast_prev hasc hmem hfunc
      · rw [if_neg (mt ult_iff.mp hfunc)]
        have hscan := @ih region.stop (if region.start.ult func ∧
          (func - (region.start - pageSize)).ult int32Max then region.start - pageSize else before)
          hrest
        revert hscan
        cases getFreeAddressLoop pageSize func regions region.stop _ with
        | error f =>
          intro hscan
          exact ⟨Nat.le_of_not_lt hfunc, List.forall_mem_cons.mpr hscan⟩
        | ok c =>
          intro hscan
          refine scanned_cons hasc (fun h => hfunc h.2) ?_ ?_ hscan
          · intro a ha
            have hlo : a + pageSize.toNat = region.start.toNat := ha.1.1
            rw [if_pos (hbelow.mpr ⟨ha.2.1, by omega⟩)]
            omega
          · intro hnone
            rw [if_neg]
            intro h
            exact hnone (region.start - pageSize).toNat
              ⟨⟨by rw [hpage]; exact Nat.sub_add_cancel (by omega), by omega⟩, hbelow.mp h⟩
    · rw [if_neg (mt hfits.mp hfit)]
      have hscan := @ih region.stop before hrest
      revert hscan
      cases getFreeAddressLoop pageSize func regions region.stop before with
      | error f =>
        intro hscan
        have hstop : region.stop.toNat ≤ func.toNat := hscan.1
        exact ⟨by omega, List.forall_mem_cons.mpr hscan⟩
      | ok c =>
        intro hscan
        refine scanned_cons hasc (fun h => hfit h.1) ?_ (fun _ => rfl) hscan
        intro a ha
        have hlo : a + pageSize.toNat = region.start.toNat := ha.1.1
        omega

/-! ## Soundness -/

variable {regions : List Region} {func : Addr 64}

/-- A whole page, aligned and disjoint from every region of the map. -/
def FreePage (pageSize : Addr 64) (regions : List Region) (addr : Addr 64) : Prop :=
  pageSize.toNat ∣ addr.toNat ∧ ∀ r ∈ regions,
    Disjoint (Set.Ico addr.toNat (addr.toNat + pageSize.toNat)) (Set.Ico r.start.toNat r.stop.toNat)

/-- Each candidate is null or a free page within reach, on its side of the function. -/
structure SoundCandidates (pageSize func : Addr 64) (regions : List Region) (c : Candidates) :
    Prop where
  before : c.before ≠ 0 → FreePage pageSize regions c.before ∧
    c.before.toNat + pageSize.toNat ≤ func.toNat ∧ func.toNat - c.before.toNat < int32Max.toNat
  after : c.after ≠ 0 → FreePage pageSize regions c.after ∧
    (∃ r ∈ regions, func.toNat < r.stop.toNat ∧ r.stop.toNat ≤ c.after.toNat) ∧
    c.after.toNat - func.toNat < int32Max.toNat

theorem ProcessMap.mapFrom (hmap : ProcessMap pageSize regions) : MapFrom pageSize 0 regions := by
  refine ⟨ascending_of_pairwise (List.pairwise_map.mpr hmap.ascending) ?_ ?_, hmap.room⟩
  · intro b hb
    obtain ⟨r, hr, rfl⟩ := List.mem_map.mp hb
    exact hmap.nonempty r hr
  · intro b _
    exact Nat.zero_le b.lo

theorem getFreeAddress_spec (hmap : ProcessMap pageSize regions) (func : Addr 64) :
    match getFreeAddress pageSize (.ok regions) func with
    | .ok c => Scanned pageSize.toNat 0 func.toNat (regions.map Region.block) 0 c
    | .error _ => ∀ r ∈ regions, r.stop.toNat ≤ func.toNat := by
  have hscan := @getFreeAddressLoop_spec pageSize func regions 0 0 hmap.mapFrom
  rw [getFreeAddress]
  revert hscan
  cases getFreeAddressLoop pageSize func regions 0 0 with
  | error f => exact fun hscan => hscan.2
  | ok c => exact fun hscan => hscan

/-- A free page whose start or end is a bound of a region is a free page of the map. -/
theorem freePage_of_free {addr : Addr 64} (hdvd : pageSize.toNat ∣ addr.toNat)
    (hfree : Free pageSize.toNat (regions.map Region.block) addr.toNat) :
    FreePage pageSize regions addr :=
  ⟨hdvd, fun _ hr => hfree.disjoint (List.mem_map_of_mem hr)⟩

theorem mem_pagesBelow {a : ℕ}
    (ha : a ∈ pagesBelow pageSize.toNat 0 func.toNat (regions.map Region.block)) :
    (∃ r ∈ regions, a + pageSize.toNat = r.start.toNat) ∧
      Free pageSize.toNat (regions.map Region.block) a ∧ a + pageSize.toNat < func.toNat ∧
        func.toNat < a + int32Max.toNat := by
  obtain ⟨⟨⟨⟨b, hb, hab⟩, hfree⟩, -⟩, hfunc, hnear⟩ := ha
  obtain ⟨r, hr, rfl⟩ := List.mem_map.mp hb
  exact ⟨⟨r, hr, hab⟩, hfree, hfunc, hnear⟩

theorem mem_pagesAbove {e : ℕ}
    (he : e ∈ pagesAbove pageSize.toNat 0 func.toNat (regions.map Region.block)) :
    (∃ r ∈ regions, e = r.stop.toNat) ∧ Free pageSize.toNat (regions.map Region.block) e ∧
      func.toNat < e := by
  obtain ⟨⟨hend, hfree⟩, hfunc⟩ := he
  rcases hend with rfl | ⟨b, hb, rfl⟩
  · exact absurd hfunc (Nat.not_lt_zero _)
  · obtain ⟨r, hr, rfl⟩ := List.mem_map.mp hb
    exact ⟨⟨r, hr, rfl⟩, hfree, hfunc⟩

theorem toNat_ne_zero {x : Addr 64} (h : x ≠ 0) : x.toNat ≠ 0 :=
  fun h' => h (BitVec.eq_of_toNat_eq h')

theorem Scanned.sound (hmap : ProcessMap pageSize regions) {c : Candidates}
    (h : Scanned pageSize.toNat 0 func.toNat (regions.map Region.block) 0 c) :
    SoundCandidates pageSize func regions c := by
  constructor
  · intro hne
    rcases h.below with hgreatest | ⟨-, hbefore⟩
    · obtain ⟨⟨r, hr, hstart⟩, hfree, hfunc, hnear⟩ := mem_pagesBelow hgreatest.1
      have hdvd : pageSize.toNat ∣ c.before.toNat :=
        (Nat.dvd_add_left (Nat.dvd_refl _)).mp (hstart ▸ (hmap.aligned r hr).1)
      exact ⟨freePage_of_free hdvd hfree, Nat.le_of_lt hfunc, by omega⟩
    · exact absurd hbefore hne
  · intro hne
    obtain ⟨e, hleast, hafter⟩ := h.above
    obtain ⟨⟨r, hr, rfl⟩, hfree, hfunc⟩ := mem_pagesAbove hleast.1
    have hne := toNat_ne_zero hne
    rw [hafter] at hne
    by_cases hnear : r.stop.toNat < func.toNat + int32Max.toNat
    · rw [if_pos hnear] at hafter
      rw [← hafter] at hfree
      exact ⟨freePage_of_free (hafter ▸ (hmap.aligned r hr).2) hfree,
        ⟨r, hr, hfunc, Nat.le_of_eq hafter.symm⟩, by omega⟩
    · rw [if_neg hnear] at hne
      exact absurd rfl hne

/-- **Soundness.** On success both candidates are sound, and the search fails exactly when no region
ends above the function. -/
theorem free_address_sound (hmap : ProcessMap pageSize regions) (func : Addr 64) :
    (∀ c, getFreeAddress pageSize (.ok regions) func = .ok c →
      SoundCandidates pageSize func regions c) ∧
    ((∃ f, getFreeAddress pageSize (.ok regions) func = .error f) ↔
      ∀ r ∈ regions, r.stop.toNat ≤ func.toNat) := by
  have hspec := getFreeAddress_spec hmap func
  revert hspec
  cases getFreeAddress pageSize (.ok regions) func with
  | error f =>
    intro hspec
    refine ⟨?_, fun _ => hspec, fun _ => ⟨f, rfl⟩⟩
    intro c hc
    cases hc
  | ok c =>
    intro hspec
    refine ⟨?_, fun h => ?_, fun hall => ?_⟩
    · intro c' hc
      cases hc
      exact hspec.sound hmap
    · obtain ⟨f, hf⟩ := h
      cases hf
    · obtain ⟨e, hleast, -⟩ := hspec.above
      obtain ⟨⟨r, hr, rfl⟩, -, hfunc⟩ := mem_pagesAbove hleast.1
      have := hall r hr
      omega

/-- Two regions of one page, one page apart from their neighbours. -/
def sampleMap : List Region := [⟨0x400000, 0x401000⟩, ⟨0x500000, 0x501000⟩]

theorem sampleMap_processMap : ProcessMap 0x1000 sampleMap :=
  ⟨by decide, by decide, by decide, by decide⟩

theorem free_address_sound_sample :
    (∀ c, getFreeAddress 0x1000 (.ok sampleMap) 0x400800 = .ok c →
      SoundCandidates 0x1000 0x400800 sampleMap c) ∧
    ((∃ f, getFreeAddress 0x1000 (.ok sampleMap) 0x400800 = .error f) ↔
      ∀ r ∈ sampleMap, r.stop.toNat ≤ (0x400800 : Addr 64).toNat) :=
  free_address_sound sampleMap_processMap 0x400800

example : getFreeAddress 0x1000 (.ok sampleMap) 0x400800 = .ok ⟨0x3ff000, 0x401000⟩ := by decide

/-! ## The nearest pages -/

/-- The pages at a non-zero address that end where a region at or below the function starts, fit in
the gap before it and are within reach. -/
def nearPagesBefore (pageSize func : Addr 64) (regions : List Region) : Set ℕ :=
  {a | a ≠ 0 ∧ (∃ r ∈ regions, r.start.toNat ≤ func.toNat ∧ a + pageSize.toNat = r.start.toNat) ∧
    Free pageSize.toNat (regions.map Region.block) a ∧ func.toNat - a < int32Max.toNat}

/-- The region ends above the function that are followed by a gap of a page, or by no region. -/
def endsAfter (pageSize func : Addr 64) (regions : List Region) : Set ℕ :=
  {e | func.toNat < e ∧ (∃ r ∈ regions, e = r.stop.toNat) ∧
    Free pageSize.toNat (regions.map Region.block) e}

/-- The candidates are the highest page before the function, or null when there is none, and the
lowest region end with room behind it, or null when that is out of reach. -/
structure NearestCandidates (pageSize func : Addr 64) (regions : List Region) (c : Candidates) :
    Prop where
  before : IsGreatest (nearPagesBefore pageSize func regions) c.before.toNat ∨
    nearPagesBefore pageSize func regions = ∅ ∧ c.before = 0
  after : ∃ e, IsLeast (endsAfter pageSize func regions) e ∧
    c.after.toNat = if e - func.toNat < int32Max.toNat then e else 0

/-- The search succeeds with the nearest free pages. -/
def FindsNearest (pageSize func : Addr 64) (regions : List Region) : Prop :=
  ∃ c, getFreeAddress pageSize (.ok regions) func = .ok c ∧
    NearestCandidates pageSize func regions c

/-- The function is the first byte of a region, and the page right before it is free, within reach
and not the null page. -/
def PageEndsAtFunc (pageSize func : Addr 64) (regions : List Region) : Prop :=
  (∃ r ∈ regions, r.start = func) ∧ pageSize.toNat < func.toNat ∧
    Free pageSize.toNat (regions.map Region.block) (func.toNat - pageSize.toNat) ∧
    pageSize.toNat < int32Max.toNat

/-- A page before the function is one that the scan looks for, unless it ends at the function. -/
theorem mem_nearPagesBefore (hmiss : ¬ PageEndsAtFunc pageSize func regions) {a : ℕ} :
    a ∈ nearPagesBefore pageSize func regions ↔
      a ≠ 0 ∧ a ∈ pagesBelow pageSize.toNat 0 func.toNat (regions.map Region.block) := by
  constructor
  · intro ha
    obtain ⟨hne, ⟨r, hr, hle, hstart⟩, hfree, hnear⟩ := ha
    have hlt : a + pageSize.toNat < func.toNat := by
      apply Nat.lt_of_le_of_ne (hstart ▸ hle)
      intro heq
      apply hmiss
      refine ⟨⟨r, hr, BitVec.eq_of_toNat_eq (hstart.symm.trans heq)⟩, by omega, ?_, by omega⟩
      rw [show func.toNat - pageSize.toNat = a by omega]
      exact hfree
    exact ⟨hne, ⟨⟨⟨r.block, List.mem_map_of_mem hr, hstart⟩, hfree⟩, Nat.zero_le a⟩, hlt, by omega⟩
  · intro ha
    obtain ⟨⟨r, hr, hstart⟩, hfree, hlt, hnear⟩ := mem_pagesBelow ha.2
    exact ⟨ha.1, ⟨r, hr, by omega, hstart⟩, hfree, by omega⟩

theorem endsAfter_eq (pageSize func : Addr 64) (regions : List Region) :
    endsAfter pageSize func regions =
      pagesAbove pageSize.toNat 0 func.toNat (regions.map Region.block) := by
  ext e
  constructor
  · intro he
    obtain ⟨hfunc, ⟨r, hr, hstop⟩, hfree⟩ := he
    exact ⟨⟨Or.inr ⟨r.block, List.mem_map_of_mem hr, hstop⟩, hfree⟩, hfunc⟩
  · intro he
    obtain ⟨hstop, hfree, hfunc⟩ := mem_pagesAbove he
    exact ⟨hfunc, hstop, hfree⟩

theorem Scanned.nearest (hmiss : ¬ PageEndsAtFunc pageSize func regions) {c : Candidates}
    (h : Scanned pageSize.toNat 0 func.toNat (regions.map Region.block) 0 c) :
    NearestCandidates pageSize func regions c := by
  constructor
  · by_cases hzero : c.before.toNat = 0
    · -- only the null page, or none, ends below the function
      refine Or.inr ⟨Set.eq_empty_of_forall_notMem ?_, BitVec.eq_of_toNat_eq hzero⟩
      intro a ha
      obtain ⟨hne, ha⟩ := (mem_nearPagesBefore hmiss).mp ha
      rcases h.below with hgreatest | ⟨hempty, -⟩
      · have := hgreatest.2 ha
        omega
      · rw [hempty] at ha
        exact ha.elim
    · rcases h.below with hgreatest | ⟨-, hbefore⟩
      · refine Or.inl ⟨(mem_nearPagesBefore hmiss).mpr ⟨hzero, hgreatest.1⟩, ?_⟩
        intro a ha
        exact hgreatest.2 ((mem_nearPagesBefore hmiss).mp ha).2
      · rw [hbefore] at hzero
        exact absurd rfl hzero
  · obtain ⟨e, hleast, hafter⟩ := h.above
    have hfunc : func.toNat < e := hleast.1.2
    refine ⟨e, endsAfter_eq pageSize func regions ▸ hleast, hafter.trans ?_⟩
    by_cases hnear : e < func.toNat + int32Max.toNat
    · rw [if_pos hnear, if_pos (by omega)]
    · rw [if_neg hnear, if_neg (by omega)]

/-- **The nearest pages.** For a function in a region of the map, the search finds the nearest free
pages if and only if none of them ends where the function starts. -/
theorem finds_nearest_iff (hmap : ProcessMap pageSize regions)
    (hfunc : ∃ r ∈ regions, r.start.toNat ≤ func.toNat ∧ func.toNat < r.stop.toNat) :
    FindsNearest pageSize func regions ↔ ¬ PageEndsAtFunc pageSize func regions := by
  have hspec := getFreeAddress_spec hmap func
  constructor
  · intro hfinds hmissed
    obtain ⟨c, hc, hnearest⟩ := hfinds
    obtain ⟨⟨r, hr, rfl⟩, hsize, hfree, hnear⟩ := hmissed
    rw [hc] at hspec
    have hmem : r.start.toNat - pageSize.toNat ∈ nearPagesBefore pageSize r.start regions :=
      ⟨by omega, ⟨r, hr, Nat.le_refl _, by omega⟩, hfree, by omega⟩
    have hle : r.start.toNat - pageSize.toNat ≤ c.before.toNat := by
      rcases hnearest.before with hgreatest | ⟨hempty, -⟩
      · exact hgreatest.2 hmem
      · rw [hempty] at hmem
        exact hmem.elim
    rcases hspec.below with hgreatest | ⟨-, hbefore⟩
    · obtain ⟨-, -, hlt, -⟩ := mem_pagesBelow hgreatest.1
      omega
    · rw [hbefore] at hle
      have : (0 : Addr 64).toNat = 0 := rfl
      omega
  · intro hmiss
    unfold FindsNearest
    revert hspec
    cases getFreeAddress pageSize (.ok regions) func with
    | error f =>
      intro hspec
      obtain ⟨r, hr, -, hlt⟩ := hfunc
      have := hspec r hr
      omega
    | ok c =>
      intro hspec
      exact ⟨c, rfl, hspec.nearest hmiss⟩

theorem finds_nearest_iff_sample :
    FindsNearest 0x1000 0x500800 sampleMap ↔ ¬ PageEndsAtFunc 0x1000 0x500800 sampleMap :=
  finds_nearest_iff sampleMap_processMap ⟨⟨0x500000, 0x501000⟩, by decide, by decide, by decide⟩

/-- A function at the very start of the second region: the page right before it is free, but the
search returns the page before the first region. -/
theorem nearest_page_missed :
    getFreeAddress 0x1000 (.ok sampleMap) 0x500000 = .ok ⟨0x3ff000, 0x501000⟩ ∧
      0x4ff000 ∈ nearPagesBefore 0x1000 0x500000 sampleMap ∧
      ¬ FindsNearest 0x1000 0x500000 sampleMap := by
  have hmem : 0x4ff000 ∈ nearPagesBefore 0x1000 0x500000 sampleMap := by
    refine ⟨by decide, ⟨⟨0x500000, 0x501000⟩, by decide, by decide, by decide⟩, ?_, by decide⟩
    have hregions : ∀ r ∈ sampleMap, r.stop.toNat ≤ 0x4ff000 ∨
        0x4ff000 + (0x1000 : Addr 64).toNat ≤ r.start.toNat := by decide
    intro b hb
    obtain ⟨r, hr, rfl⟩ := List.mem_map.mp hb
    exact hregions r hr
  have hfound : getFreeAddress 0x1000 (.ok sampleMap) 0x500000 = .ok ⟨0x3ff000, 0x501000⟩ := by
    decide
  refine ⟨hfound, hmem, ?_⟩
  intro hfinds
  obtain ⟨c, hc, hnearest⟩ := hfinds
  rw [hfound] at hc
  cases hc
  rcases hnearest.before with hgreatest | ⟨hempty, -⟩
  · exact absurd (hgreatest.2 hmem) (by decide)
  · rw [hempty] at hmem
    exact hmem.elim

end Funchook.Unix
