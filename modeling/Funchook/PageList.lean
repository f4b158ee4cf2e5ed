import Mathlib.Data.Finset.Image
import Funchook.Lib.Blocks
import Funchook.Lib.Ring
import Funchook.Lib.Run
import Funchook.MemoryProtection
import Funchook.OsWindows
import Funchook.RegionSearch

/-!
# The list of allocation units on Windows (`os_windows.c`)

`funchook_page_alloc` and `funchook_page_free` with the links of `page_list` as pointers, for both
pointer sizes. All handles of a process share the list. Its head is a static variable, and every
other member lies in the control page of a reserved unit. What the system answers is data; beside
the fields of the source a state holds the units that are reserved and the pages that were handed
out and not decommitted since.
-/

namespace Funchook.Windows.PageList

open Blocks Function Ring Runs
open X86 (PageSize)

variable {w : ℕ} {pageSize : PageSize}

/-- The members of `page_list`, by their addresses. -/
structure PageListState (w : ℕ) where
  /-- `next` and `prev` -/
  links : Links (Addr w)
  /-- `num_used` -/
  numUsed : Addr w → ℤ
  /-- `used[i]` -/
  used : Addr w → ℕ → Bool
  reserved : Finset (Addr w)
  outstanding : Finset (Addr w)

/-- The list as it is initialized, with `&page_list` in both links. -/
def PageListState.start (head : Addr w) : PageListState w :=
  ⟨⟨fun _ => head, fun _ => head⟩, fun _ => 0, fun _ _ => false, ∅, ∅⟩

/-- The page with the number `i` of a unit, behind the control page. -/
def pageAddr (pageSize : PageSize) (pl : Addr w) (i : ℕ) : Addr w :=
  pl + BitVec.ofNat w ((i + 1) * pageSize.toNat)

/-- What the system answers during one `funchook_page_alloc`. `search` is the hint of the loop of
`alloc_page_info`, which is null on 32-bit; `releaseInfo` is about the unit whose control page was
not committed. -/
structure AllocEnv (w : ℕ) where
  search : Except Failure (Addr w)
  reserve : Addr w → Except OsError (Addr w)
  commitInfo : Option OsError
  releaseInfo : Option OsError
  commitPage : Option OsError

/-- What the system answers during one `funchook_page_free`. -/
structure FreeEnv where
  decommit : Option OsError
  release : Option OsError

variable (unit : AllocationUnit pageSize) (head : Addr w)

def unitSize (w : ℕ) : Addr w := BitVec.ofNat w unit.toNat

/-! ## `funchook_page_alloc` -/

/-- A zero-filled `page_info`, which is put behind the head. -/
def PageListState.insertUnit (s : PageListState w) (pl : Addr w) : PageListState w where
  links := s.links.insertBehind head pl
  numUsed := update s.numUsed pl 0
  used := update s.used pl fun _ => false
  reserved := insert pl s.reserved
  outstanding := s.outstanding

def allocPageInfo (s : PageListState w) (env : AllocEnv w) :
    Except Failure (Addr w) × PageListState w :=
  match env.search with
  | .error f => (.error f, s)
  | .ok hint =>
    match env.reserve hint with
    | .error e => (.error ⟨errorMemoryAllocation, "Failed to reserve memory " ++
        fmtDigits (0 : Addr w) ++ " (hint=" ++ fmtDigits hint ++ ", size=" ++
        toString unit.toNat ++ ", errro=" ++ fmtError e ++ ")"⟩, s)
    | .ok pl =>
      match env.commitInfo with
      | some e => (.error ⟨errorMemoryFunction, "Failed to commit memory " ++
          fmtDigits (0 : Addr w) ++ " for read-write (hint=" ++ fmtDigits pl ++ ", size=" ++
          toString pageSize.toNat ++ ", error=" ++ fmtError e ++ ")"⟩,
          -- the result of the release is not looked at
          match env.releaseInfo with
          | none => s
          | some _ => { s with reserved := insert pl s.reserved })
      | none => (.ok pl, s.insertUnit head pl)

/-- The inner loop over the pages of a unit. -/
def findUnused (s : PageListState w) (avail : Addr w → Bool) (pl : Addr w) : Option ℕ :=
  (List.range unit.maxNumPages).find? fun i => !s.used pl i && avail (pageAddr pageSize pl i)

/-- The outer loop, from a member of the list on and for so many members. -/
def findPage (s : PageListState w) (avail : Addr w → Bool) :
    ℕ → Addr w → Option (Option (Addr w × ℕ))
  | 0, _ => none
  | rounds + 1, pl =>
    if pl = head then some none
    else
      match findUnused unit s avail pl with
      | some i => some (some (pl, i))
      | none => findPage s avail rounds (s.links.next pl)

/-- `used[i] = 1` and `num_used++`, and the page is handed out. -/
def PageListState.commit (s : PageListState w) (pageSize : PageSize) (pl : Addr w) (i : ℕ) :
    PageListState w :=
  { s with
    numUsed := update s.numUsed pl (s.numUsed pl + 1)
    used := update s.used pl (update (s.used pl) i true)
    outstanding := insert (pageAddr pageSize pl i) s.outstanding }

/-- `funchook_page_alloc` behind `exit_loop`, for a page of a unit. -/
def commitFound (s : PageListState w) (env : AllocEnv w) (pl : Addr w) (i : ℕ) :
    Except Failure (Addr w) × PageListState w :=
  let page := pageAddr pageSize pl i
  match env.commitPage with
  | some e => (.error ⟨errorMemoryFunction, "Failed to commit page " ++ fmtDigits page ++
      " (base=" ++ fmtDigits pl ++ "(used=" ++ toString (s.numUsed pl) ++ "), idx=" ++
      toString i ++ ", size=" ++ toString pageSize.toNat ++ ", error=" ++ fmtError e ++ ")"⟩, s)
  | none => (.ok page, s.commit pageSize pl i)

/-- `funchook_page_alloc`, for so many members of the list; `none` when they do not suffice. -/
def funchookPageAlloc (rounds : ℕ) (s : PageListState w) (avail : Addr w → Bool)
    (env : AllocEnv w) : Option (Except Failure (Addr w) × PageListState w) :=
  match findPage unit head s avail rounds (s.links.next head) with
  | none => none
  | some (some (pl, i)) => some (@commitFound w pageSize s env pl i)
  | some none =>
    match allocPageInfo unit head s env with
    | (.error f, s) => some (.error f, s)
    | (.ok pl, s) => some (@commitFound w pageSize s env pl 0)

/-! ## `funchook_page_free` -/

/-- `pl`, from the address of a page. -/
def unitOf (page : Addr w) : Addr w := page &&& ~~~(unitSize unit w - 1)

/-- `idx`, from the address of a page. -/
def indexOf (page : Addr w) : ℕ :=
  ((page - unitOf unit page) / BitVec.ofNat w pageSize.toNat - 1).toNat

/-- `num_used--` and `used[idx] = 0`, once the page is decommitted. -/
def PageListState.decommit (s : PageListState w) (page : Addr w) : PageListState w :=
  let pl := unitOf unit page
  { s with
    numUsed := update s.numUsed pl (s.numUsed pl - 1)
    used := update s.used pl (update (s.used pl) (indexOf unit page) false)
    outstanding := s.outstanding.erase page }

def funchookPageFree (s : PageListState w) (page : Addr w) (env : FreeEnv) :
    Option Failure × PageListState w :=
  let pl := unitOf unit page
  match env.decommit with
  | some e => (some ⟨errorMemoryFunction, "Failed to decommit page " ++ fmtDigits page ++
      " (base=" ++ fmtDigits pl ++ "(used=" ++ toString (s.numUsed pl) ++ "), idx=" ++
      toString (indexOf unit page) ++ ", size=" ++ toString pageSize.toNat ++ ", error=" ++
      fmtError e ++ ")"⟩, s)
  | none =>
    let s := s.decommit unit page
    if s.numUsed pl ≠ 0 then (none, s)
    else
      let s := { s with links := s.links.unlink pl }
      match env.release with
      | some e => (some ⟨errorMemoryFunction, "Failed to release memory " ++ fmtDigits pl ++
          " (size=" ++ toString unit.toNat ++ ", error=" ++ fmtError e ++ ")"⟩, s)
      | none => (none, { s with reserved := s.reserved.erase pl })

/-! ## Addresses in a unit -/

variable {unit head} {s s' : PageListState w} {avail : Addr w → Bool} {env : AllocEnv w}
  {units : List (Addr w)} {u v pl page : Addr w} {i j : ℕ}

theorem toNat_unitSize (hw : 32 ≤ w) : (unitSize unit w).toNat = 2 ^ unit.log := by
  rw [unitSize, BitVec.toNat_ofNat, AllocationUnit.toNat]
  exact Nat.mod_eq_of_lt (Nat.pow_lt_pow_right (by decide) (Nat.lt_of_lt_of_le unit.upper hw))

/-- The pages behind the control page end with the unit. -/
theorem page_lt_unit (hi : i < unit.maxNumPages) : (i + 1) * pageSize.toNat < 2 ^ unit.log := by
  have hpos : 0 < pageSize.toNat := Nat.lt_of_lt_of_le (by decide) pageSize.bounds.1
  have hmax : i + 1 < unit.toNat / pageSize.toNat := by
    unfold AllocationUnit.maxNumPages at hi
    omega
  calc (i + 1) * pageSize.toNat
      < unit.toNat / pageSize.toNat * pageSize.toNat := Nat.mul_lt_mul_of_pos_right hmax hpos
    _ ≤ 2 ^ unit.log := Nat.div_mul_le_self _ _

theorem toNat_pageAddr (hw : 32 ≤ w) (hu : 2 ^ unit.log ∣ u.toNat) (hi : i < unit.maxNumPages) :
    (pageAddr pageSize u i).toNat = u.toNat + (i + 1) * pageSize.toNat := by
  have hpage := page_lt_unit hi
  -- a unit does not wrap around the address space
  have hend : u.toNat + 2 ^ unit.log ≤ 2 ^ w := by
    obtain ⟨q, hq⟩ := hu
    obtain ⟨m, hm⟩ : 2 ^ unit.log ∣ 2 ^ w :=
      Nat.pow_dvd_pow 2 (Nat.le_of_lt (Nat.lt_of_lt_of_le unit.upper hw))
    have hlt := u.isLt
    rw [hq, hm] at hlt ⊢
    rw [← Nat.mul_succ]
    exact Nat.mul_le_mul_left _ (Nat.lt_of_mul_lt_mul_left hlt)
  rw [pageAddr, BitVec.toNat_add, BitVec.toNat_ofNat, Nat.add_mod_mod, Nat.mod_eq_of_lt]
  omega

theorem pageAddr_mod (hw : 32 ≤ w) (hu : 2 ^ unit.log ∣ u.toNat) (hi : i < unit.maxNumPages) :
    (pageAddr pageSize u i).toNat % 2 ^ unit.log = (i + 1) * pageSize.toNat := by
  obtain ⟨q, hq⟩ := hu
  rw [toNat_pageAddr hw ⟨q, hq⟩ hi, hq, Nat.mul_add_mod, Nat.mod_eq_of_lt (page_lt_unit hi)]

/-- A page of a unit is not the beginning of a unit. -/
theorem pageAddr_not_aligned (hw : 32 ≤ w) (hu : 2 ^ unit.log ∣ u.toNat)
    (hi : i < unit.maxNumPages) : ¬ 2 ^ unit.log ∣ (pageAddr pageSize u i).toNat := by
  have hpos : 0 < (i + 1) * pageSize.toNat :=
    Nat.mul_pos (Nat.succ_pos i) (Nat.lt_of_lt_of_le (by decide) pageSize.bounds.1)
  rw [Nat.dvd_iff_mod_eq_zero, pageAddr_mod hw hu hi]
  exact Nat.ne_of_gt hpos

theorem unitOf_pageAddr (hw : 32 ≤ w) (hu : 2 ^ unit.log ∣ u.toNat) (hi : i < unit.maxNumPages) :
    unitOf unit (pageAddr pageSize u i) = u := by
  apply BitVec.eq_of_toNat_eq
  have hmod := pageAddr_mod hw hu hi
  have hdiv := Nat.div_add_mod' (pageAddr pageSize u i).toNat (2 ^ unit.log)
  rw [unitOf, toNat_and_not_sub_one (toNat_unitSize hw)]
  rw [hmod, toNat_pageAddr hw hu hi] at hdiv
  rw [toNat_pageAddr hw hu hi]
  omega

theorem indexOf_pageAddr (hw : 32 ≤ w) (hu : 2 ^ unit.log ∣ u.toNat)
    (hi : i < unit.maxNumPages) : indexOf unit (pageAddr pageSize u i) = i := by
  have hpos : 0 < pageSize.toNat := Nat.lt_of_lt_of_le (by decide) pageSize.bounds.1
  have hsize : (BitVec.ofNat w pageSize.toNat).toNat = pageSize.toNat := by
    rw [BitVec.toNat_ofNat]
    apply Nat.mod_eq_of_lt
    exact Nat.pow_lt_pow_right (by decide)
      (Nat.lt_of_lt_of_le (Nat.lt_trans unit.larger unit.upper) hw)
  have hquot : ((pageAddr pageSize u i - unitOf unit (pageAddr pageSize u i)) /
      BitVec.ofNat w pageSize.toNat).toNat = i + 1 := by
    rw [BitVec.toNat_udiv, hsize, unitOf, toNat_sub_and_not (toNat_unitSize hw),
      pageAddr_mod hw hu hi, Nat.mul_div_cancel _ hpos]
  have hone : (1 : BitVec w).toNat = 1 :=
    Nat.mod_eq_of_lt (Nat.one_lt_two_pow (by omega))
  rw [indexOf, BitVec.toNat_sub_of_le, hquot, hone, Nat.add_sub_cancel]
  rw [BitVec.le_def, hquot, hone]
  exact Nat.succ_pos i

theorem pageAddr_inj (hw : 32 ≤ w) (hu : 2 ^ unit.log ∣ u.toNat) (hv : 2 ^ unit.log ∣ v.toNat)
    (hi : i < unit.maxNumPages) (hj : j < unit.maxNumPages)
    (heq : pageAddr pageSize u i = pageAddr pageSize v j) : u = v ∧ i = j := by
  constructor
  · rw [← unitOf_pageAddr hw hu hi, heq, unitOf_pageAddr hw hv hj]
  · rw [← indexOf_pageAddr hw hu hi, heq, indexOf_pageAddr hw hv hj]

/-! ## The walk along the list -/

/-- The two loops find the first unused page of the units that are left, and as many rounds as there
are units, and one more, suffice. -/
theorem findPage_of_chain (avail : Addr w → Bool) (rounds : ℕ)
    (hchain : Chain s.links u (units ++ [head])) (hhead : head ∉ units) :
    findPage unit head s avail rounds (s.links.next u) =
        some (units.findSome? fun pl => (findUnused unit s avail pl).map fun i => (pl, i)) ∨
      findPage unit head s avail rounds (s.links.next u) = none ∧ rounds ≤ units.length := by
  induction units generalizing u rounds with
  | nil =>
    rw [hchain.1]
    cases rounds with
    | zero => exact Or.inr ⟨rfl, Nat.zero_le _⟩
    | succ rounds =>
      left
      show (if head = head then some none else _) = some none
      rw [if_pos rfl]
  | cons pl pls ih =>
    obtain ⟨hnext, -, hrest⟩ := hchain
    rw [List.mem_cons, not_or] at hhead
    rw [hnext]
    cases rounds with
    | zero => exact Or.inr ⟨rfl, Nat.zero_le _⟩
    | succ rounds =>
      rw [findPage, if_neg (Ne.symm hhead.1), List.findSome?_cons]
      cases hfound : findUnused unit s avail pl with
      | some i => exact Or.inl rfl
      | none =>
        rcases ih rounds hrest hhead.2 with hpage | ⟨hpage, hle⟩
        · exact Or.inl hpage
        · exact Or.inr ⟨hpage, Nat.succ_le_succ hle⟩

theorem findUnused_some (h : findUnused unit s avail pl = some i) :
    i < unit.maxNumPages ∧ s.used pl i = false := by
  have hmem := List.mem_of_find?_eq_some h
  have hunused := List.find?_some h
  simp only [Bool.and_eq_true, Bool.not_eq_true'] at hunused
  exact ⟨List.mem_range.mp hmem, hunused.1⟩

/-! ## The invariant -/

variable (unit) in
/-- The flags of a unit that are set. -/
def usedFlags (s : PageListState w) (u : Addr w) : Finset ℕ :=
  (Finset.range unit.maxNumPages).filter fun i => s.used u i = true

variable (unit) in
/-- The outstanding pages of a unit. -/
def pagesIn (s : PageListState w) (u : Addr w) : Finset (Addr w) :=
  s.outstanding.filter fun page => unitOf unit page = u

variable (unit head) in
/-- The list holds `units`, in this order. -/
structure Inv (s : PageListState w) (units : List (Addr w)) : Prop where
  ring : IsRing s.links head units
  reserved : ∀ u ∈ units, u ∈ s.reserved
  aligned : ∀ u ∈ s.reserved, 2 ^ unit.log ∣ u.toNat
  used_iff : ∀ u ∈ units, ∀ i < unit.maxNumPages,
    s.used u i = true ↔ pageAddr pageSize u i ∈ s.outstanding
  numUsed : ∀ u ∈ units, s.numUsed u = (usedFlags unit s u).card
  page : ∀ page ∈ s.outstanding, ∃ u ∈ units, ∃ i < unit.maxNumPages, page = pageAddr pageSize u i

theorem Inv.start : Inv unit head (.start head) [] where
  ring := isRing_nil rfl rfl
  reserved := by simp
  aligned := by simp [PageListState.start]
  used_iff := by simp
  numUsed := by simp
  page := by simp [PageListState.start]

theorem Inv.unit_aligned (h : Inv unit head s units) (hu : u ∈ units) : 2 ^ unit.log ∣ u.toNat :=
  h.aligned u (h.reserved u hu)

/-- The outstanding pages of a listed unit are those with a flag. -/
theorem Inv.pagesIn_eq (hw : 32 ≤ w) (h : Inv unit head s units) (hu : u ∈ units) :
    pagesIn unit s u = (usedFlags unit s u).image (pageAddr pageSize u) := by
  ext page
  simp only [pagesIn, usedFlags, Finset.mem_filter, Finset.mem_image, Finset.mem_range]
  constructor
  · rintro ⟨hout, hunit⟩
    obtain ⟨v, hv, i, hi, rfl⟩ := h.page page hout
    rw [unitOf_pageAddr hw (h.unit_aligned hv) hi] at hunit
    subst hunit
    exact ⟨i, ⟨hi, (h.used_iff v hv i hi).mpr hout⟩, rfl⟩
  · rintro ⟨i, ⟨hi, hused⟩, rfl⟩
    exact ⟨(h.used_iff u hu i hi).mp hused, unitOf_pageAddr hw (h.unit_aligned hu) hi⟩

theorem Inv.card_pagesIn (hw : 32 ≤ w) (h : Inv unit head s units) (hu : u ∈ units) :
    (pagesIn unit s u).card = (usedFlags unit s u).card := by
  rw [h.pagesIn_eq hw hu]
  apply Finset.card_image_of_injOn
  intro i hi j hj heq
  simp only [Finset.mem_coe, usedFlags, Finset.mem_filter, Finset.mem_range] at hi hj
  exact (pageAddr_inj hw (h.unit_aligned hu) (h.unit_aligned hu) hi.1 hj.1 heq).2

/-! ## What keeps it -/

variable (unit head) in
/-- A unit that the system may reserve: none of those that are reserved, and apart from the static
head of the list. -/
def Fresh (s : PageListState w) (pl : Addr w) : Prop :=
  2 ^ unit.log ∣ pl.toNat ∧ pl ∉ s.reserved ∧ pl ≠ head

/-- A unit that is reserved and never put on the list. -/
theorem Inv.reserve (h : Inv unit head s units) (hpl : Fresh unit head s pl) :
    Inv unit head { s with reserved := insert pl s.reserved } units where
  ring := h.ring
  reserved := fun u hu => Finset.mem_insert_of_mem (h.reserved u hu)
  aligned := by
    intro u hu
    rcases Finset.mem_insert.mp hu with rfl | hu
    · exact hpl.1
    · exact h.aligned u hu
  used_iff := h.used_iff
  numUsed := h.numUsed
  page := h.page

theorem Inv.insertUnit (hw : 32 ≤ w) (h : Inv unit head s units) (hpl : Fresh unit head s pl) :
    Inv unit head (s.insertUnit head pl) (pl :: units) := by
  obtain ⟨hpl_aligned, hnew, hhead⟩ := hpl
  have hne : ∀ u ∈ units, u ≠ pl := by
    rintro u hu rfl
    exact hnew (h.reserved u hu)
  refine ⟨?_, ?_, ?_, ?_, ?_, ?_⟩
  · apply h.ring.insertBehind
    rw [List.mem_cons, not_or]
    exact ⟨hhead, fun hmem => hne pl hmem rfl⟩
  · intro u hu
    rcases List.mem_cons.mp hu with rfl | hu
    · exact Finset.mem_insert_self u _
    · exact Finset.mem_insert_of_mem (h.reserved u hu)
  · exact (h.reserve ⟨hpl_aligned, hnew, hhead⟩).aligned
  · intro u hu i hi
    rcases List.mem_cons.mp hu with rfl | hu
    · -- no page of a new unit is outstanding
      simp only [PageListState.insertUnit, update_self, Bool.false_eq_true, false_iff]
      intro hout
      obtain ⟨v, hv, j, hj, heq⟩ := h.page _ hout
      exact hne v hv (pageAddr_inj hw hpl_aligned (h.unit_aligned hv) hi hj heq).1.symm
    · simp only [PageListState.insertUnit, update_of_ne (hne u hu)]
      exact h.used_iff u hu i hi
  · intro u hu
    rcases List.mem_cons.mp hu with rfl | hu
    · simp [PageListState.insertUnit, usedFlags]
    · simp only [PageListState.insertUnit, usedFlags, update_of_ne (hne u hu)]
      exact h.numUsed u hu
  · intro page hout
    obtain ⟨u, hu, i, hi, rfl⟩ := h.page page hout
    exact ⟨u, List.mem_cons_of_mem pl hu, i, hi, rfl⟩

/-- Setting a flag that is not set. -/
theorem Inv.commit (hw : 32 ≤ w) (h : Inv unit head s units) (hpl : pl ∈ units)
    (hi : i < unit.maxNumPages) (hunused : s.used pl i = false) :
    Inv unit head (s.commit pageSize pl i) units where
  ring := h.ring
  reserved := h.reserved
  aligned := h.aligned
  used_iff := by
    intro u hu j hj
    have hold := h.used_iff u hu j hj
    have hinj := pageAddr_inj hw (h.unit_aligned hu) (h.unit_aligned hpl) hj hi
    simp only [PageListState.commit, Finset.mem_insert]
    by_cases heq : u = pl
    · subst heq
      rw [update_self]
      by_cases hij : j = i
      · simp [hij]
      · rw [update_of_ne hij, hold]
        exact ⟨Or.inr, fun hor => hor.resolve_left fun h => hij (hinj h).2⟩
    · rw [update_of_ne heq, hold]
      exact ⟨Or.inr, fun hor => hor.resolve_left fun h => heq (hinj h).1⟩
  numUsed := by
    intro u hu
    by_cases heq : u = pl
    · subst heq
      have hflags : usedFlags unit (s.commit pageSize u i) u =
          insert i (usedFlags unit s u) := by
        ext j
        by_cases hij : j = i
        · subst hij
          simp [usedFlags, PageListState.commit, hi]
        · simp [usedFlags, PageListState.commit, hij]
      have hnot : i ∉ usedFlags unit s u := by simp [usedFlags, hunused]
      rw [hflags, Finset.card_insert_of_notMem hnot, Nat.cast_succ, ← h.numUsed u hu]
      simp [PageListState.commit]
    · simp only [PageListState.commit, usedFlags, update_of_ne heq]
      exact h.numUsed u hu
  page := by
    intro page hout
    rcases Finset.mem_insert.mp hout with rfl | hout
    · exact ⟨pl, hpl, i, hi, rfl⟩
    · exact h.page page hout

/-- Clearing the flag of an outstanding page. -/
theorem Inv.decommit (hw : 32 ≤ w) (h : Inv unit head s units) (hout : page ∈ s.outstanding) :
    Inv unit head (s.decommit unit page) units := by
  obtain ⟨pl, hpl, i, hi, rfl⟩ := h.page page hout
  have hset := (h.used_iff pl hpl i hi).mpr hout
  have hunit := unitOf_pageAddr hw (h.unit_aligned hpl) hi
  have hindex := indexOf_pageAddr hw (h.unit_aligned hpl) hi
  refine ⟨h.ring, h.reserved, h.aligned, ?_, ?_, ?_⟩
  · intro u hu j hj
    have hold := h.used_iff u hu j hj
    have hinj := pageAddr_inj hw (h.unit_aligned hu) (h.unit_aligned hpl) hj hi
    simp only [PageListState.decommit, hunit, hindex, Finset.mem_erase]
    by_cases heq : u = pl
    · subst heq
      rw [update_self]
      by_cases hij : j = i
      · simp [hij]
      · rw [update_of_ne hij, hold]
        exact ⟨fun hmem => ⟨fun h => hij (hinj h).2, hmem⟩, And.right⟩
    · rw [update_of_ne heq, hold]
      exact ⟨fun hmem => ⟨fun h => heq (hinj h).1, hmem⟩, And.right⟩
  · intro u hu
    by_cases heq : u = pl
    · subst heq
      have hflags : usedFlags unit (s.decommit unit (pageAddr pageSize u i)) u =
          (usedFlags unit s u).erase i := by
        ext j
        by_cases hij : j = i
        · simp [usedFlags, PageListState.decommit, hunit, hindex, hij]
        · simp [usedFlags, PageListState.decommit, hunit, hindex, hij]
      have hmem : i ∈ usedFlags unit s u := by simp [usedFlags, hi, hset]
      have hpos := Finset.card_pos.mpr ⟨i, hmem⟩
      rw [hflags, Finset.card_erase_of_mem hmem, Nat.cast_sub hpos, ← h.numUsed u hu]
      simp [PageListState.decommit, hunit]
    · simp only [PageListState.decommit, usedFlags, hunit, update_of_ne heq]
      exact h.numUsed u hu
  · intro page hmem
    exact h.page page (Finset.mem_of_mem_erase hmem)

/-- Unlinking a unit without outstanding pages. -/
theorem Inv.unlink (h : Inv unit head s units) (hpl : pl ∈ units) (hzero : s.numUsed pl = 0) :
    Inv unit head { s with links := s.links.unlink pl } (units.erase pl) where
  ring := h.ring.unlink hpl
  reserved := fun u hu => h.reserved u (List.mem_of_mem_erase hu)
  aligned := h.aligned
  used_iff := fun u hu => h.used_iff u (List.mem_of_mem_erase hu)
  numUsed := fun u hu => h.numUsed u (List.mem_of_mem_erase hu)
  page := by
    intro page hout
    obtain ⟨u, hu, i, hi, rfl⟩ := h.page page hout
    refine ⟨u, (List.mem_erase_of_ne ?_).mpr hu, i, hi, rfl⟩
    rintro rfl
    -- the page would have a flag
    have hmem : i ∈ usedFlags unit s u := by simp [usedFlags, hi, (h.used_iff u hu i hi).mpr hout]
    have hpos := Finset.card_pos.mpr ⟨i, hmem⟩
    have hnum := h.numUsed u hu
    omega

/-- Releasing a unit that is not on the list. -/
theorem Inv.release (h : Inv unit head s units) (hpl : pl ∉ units) :
    Inv unit head { s with reserved := s.reserved.erase pl } units where
  ring := h.ring
  reserved := by
    intro u hu
    rw [Finset.mem_erase]
    refine ⟨?_, h.reserved u hu⟩
    rintro rfl
    exact hpl hu
  aligned := fun u hu => h.aligned u (Finset.mem_of_mem_erase hu)
  used_iff := h.used_iff
  numUsed := h.numUsed
  page := h.page

/-! ## What one call does -/

/-- The end of `funchook_page_alloc`: an unused page of a unit is handed out, or nothing changes. -/
theorem Inv.commitFound (env : AllocEnv w) (hw : 32 ≤ w) (h : Inv unit head s units)
    (hpl : pl ∈ units) (hi : i < unit.maxNumPages) (hunused : s.used pl i = false) :
    Inv unit head (@commitFound w pageSize s env pl i).2 units ∧
      ∀ page, (@commitFound w pageSize s env pl i).1 = .ok page →
        page ∉ s.outstanding ∧ ¬ 2 ^ unit.log ∣ page.toNat := by
  unfold PageList.commitFound
  cases env.commitPage with
  | some e => exact ⟨h, by simp⟩
  | none =>
    refine ⟨h.commit hw hpl hi hunused, ?_⟩
    rintro page ⟨⟩
    refine ⟨?_, pageAddr_not_aligned hw (h.unit_aligned hpl) hi⟩
    rw [← h.used_iff pl hpl i hi, hunused]
    exact Bool.false_ne_true

/-- `alloc_page_info` puts a unit without pages on the list, or the list stays as it is. -/
theorem Inv.allocPageInfo (hw : 32 ≤ w) (h : Inv unit head s units)
    (hfresh : ∀ hint pl, env.reserve hint = .ok pl → Fresh unit head s pl)
    {result : Except Failure (Addr w)} (hcall : allocPageInfo unit head s env = (result, s')) :
    ∃ units', units ⊆ units' ∧ Inv unit head s' units' ∧ s'.outstanding = s.outstanding ∧
      ∀ pl, result = .ok pl → pl ∈ units' ∧ ∀ i, s'.used pl i = false := by
  unfold PageList.allocPageInfo at hcall
  cases hsearch : env.search with
  | error f =>
    rw [hsearch] at hcall
    cases hcall
    exact ⟨units, fun _ => id, h, rfl, by simp⟩
  | ok hint =>
    rw [hsearch] at hcall
    cases hreserve : env.reserve hint with
    | error e =>
      simp only [hreserve] at hcall
      cases hcall
      exact ⟨units, fun _ => id, h, rfl, by simp⟩
    | ok pl =>
      have hpl := hfresh hint pl hreserve
      simp only [hreserve] at hcall
      cases hinfo : env.commitInfo with
      | some e =>
        simp only [hinfo] at hcall
        cases hrelease : env.releaseInfo with
        | none =>
          simp only [hrelease] at hcall
          cases hcall
          exact ⟨units, fun _ => id, h, rfl, by simp⟩
        | some e =>
          simp only [hrelease] at hcall
          cases hcall
          exact ⟨units, fun _ => id, h.reserve hpl, rfl, by simp⟩
      | none =>
        simp only [hinfo] at hcall
        cases hcall
        refine ⟨pl :: units, List.subset_cons_self pl units, h.insertUnit hw hpl, rfl, ?_⟩
        rintro pl' ⟨⟩
        refine ⟨List.mem_cons_self, fun i => ?_⟩
        simp [PageListState.insertUnit]

theorem maxNumPages_pos : 0 < unit.maxNumPages := by
  have hle : 2 * pageSize.toNat ≤ unit.toNat := by
    show 2 * 2 ^ pageSize.log ≤ 2 ^ unit.log
    rw [← Nat.pow_succ']
    exact Nat.pow_le_pow_right (by decide) unit.larger
  have hpos : 0 < pageSize.toNat := Nat.lt_of_lt_of_le (by decide) pageSize.bounds.1
  have hdiv := (Nat.le_div_iff_mul_le hpos).mpr hle
  unfold AllocationUnit.maxNumPages
  omega

/-- **`funchook_page_alloc` keeps the invariant**, takes no unit off the list, and returns no
outstanding page and no beginning of a unit. -/
theorem Inv.alloc (hw : 32 ≤ w) (h : Inv unit head s units) {rounds : ℕ}
    {result : Except Failure (Addr w)}
    (hfresh : ∀ hint pl, env.reserve hint = .ok pl → Fresh unit head s pl)
    (hcall : funchookPageAlloc unit head rounds s avail env = some (result, s')) :
    ∃ units', units ⊆ units' ∧ Inv unit head s' units' ∧
      ∀ page, result = .ok page → page ∉ s.outstanding ∧ ¬ 2 ^ unit.log ∣ page.toNat := by
  have hhead : head ∉ units := (List.nodup_cons.mp h.ring.1).1
  unfold funchookPageAlloc at hcall
  rcases findPage_of_chain avail rounds h.ring.2 hhead with hfind | ⟨hfind, -⟩
  · rw [hfind] at hcall
    cases hfirst : units.findSome? fun pl =>
        (findUnused unit s avail pl).map fun i => (pl, i) with
    | some found =>
      obtain ⟨pl, hpl, hunused⟩ := List.exists_of_findSome?_eq_some hfirst
      obtain ⟨i, hi, rfl⟩ := Option.map_eq_some_iff.mp hunused
      obtain ⟨hlt, hflag⟩ := findUnused_some hi
      rw [hfirst] at hcall
      obtain ⟨hinv, hpage⟩ := h.commitFound env hw hpl hlt hflag
      simp only [Option.some.injEq] at hcall
      rw [hcall] at hinv hpage
      exact ⟨units, fun _ => id, hinv, hpage⟩
    | none =>
      rw [hfirst] at hcall
      obtain ⟨rv, t, hinfo⟩ : ∃ rv t, PageList.allocPageInfo unit head s env = (rv, t) :=
        ⟨_, _, rfl⟩
      obtain ⟨units', hsub, hinv, hsame, hpl⟩ := h.allocPageInfo hw hfresh hinfo
      simp only [hinfo] at hcall
      cases rv with
      | error f =>
        cases hcall
        exact ⟨units', hsub, hinv, by simp⟩
      | ok pl =>
        obtain ⟨hmem, hflags⟩ := hpl pl rfl
        obtain ⟨hkeep, hpage⟩ := hinv.commitFound env hw hmem maxNumPages_pos (hflags 0)
        simp only [Option.some.injEq] at hcall
        rw [hcall] at hkeep hpage
        exact ⟨units', hsub, hkeep, hsame ▸ hpage⟩
  · rw [hfind] at hcall
    cases hcall

/-- Some number of rounds suffices. -/
theorem Inv.alloc_returns (h : Inv unit head s units) (avail : Addr w → Bool)
    (env : AllocEnv w) :
    ∃ rounds result s', funchookPageAlloc unit head rounds s avail env = some (result, s') := by
  have hhead : head ∉ units := (List.nodup_cons.mp h.ring.1).1
  refine ⟨units.length + 1, ?_⟩
  unfold funchookPageAlloc
  rcases findPage_of_chain avail (units.length + 1) h.ring.2 hhead with
    hfind | ⟨-, hle⟩
  · rw [hfind]
    cases units.findSome? fun pl => (findUnused unit s avail pl).map fun i => (pl, i) with
    | some found => exact ⟨_, _, rfl⟩
    | none =>
      obtain ⟨rv, t, hinfo⟩ : ∃ rv t, PageList.allocPageInfo unit head s env = (rv, t) :=
        ⟨_, _, rfl⟩
      simp only [hinfo]
      cases rv with
      | error f => exact ⟨_, _, rfl⟩
      | ok pl => exact ⟨_, _, rfl⟩
  · omega

/-- `num_used` becomes zero when the last outstanding page of the unit is decommitted. -/
theorem Inv.numUsed_decommit (hw : 32 ≤ w) (h : Inv unit head s units)
    (hout : page ∈ s.outstanding) (hpl : unitOf unit page ∈ units) :
    (s.decommit unit page).numUsed (unitOf unit page) = 0 ↔
      pagesIn unit s (unitOf unit page) = {page} := by
  have hkeep := h.decommit hw hout
  have hmem : page ∈ pagesIn unit s (unitOf unit page) := by simp [pagesIn, hout]
  have hpages : pagesIn unit (s.decommit unit page) (unitOf unit page) =
      (pagesIn unit s (unitOf unit page)).erase page := by
    simp only [pagesIn, PageListState.decommit, Finset.filter_erase]
  rw [hkeep.numUsed _ hpl, ← hkeep.card_pagesIn hw hpl, Int.natCast_eq_zero, Finset.card_eq_zero,
    hpages, Finset.erase_eq_empty_iff]
  constructor
  · rintro (hempty | hsingle)
    · rw [hempty] at hmem
      cases hmem
    · exact hsingle
  · exact Or.inr

/-- **`funchook_page_free` keeps the invariant** and takes the unit of the page off the list if the
page is decommitted and no other page of the unit is outstanding. -/
theorem Inv.free (hw : 32 ≤ w) (h : Inv unit head s units) (hout : page ∈ s.outstanding)
    {env : FreeEnv} {result : Option Failure}
    (hcall : funchookPageFree unit s page env = (result, s')) :
    Inv unit head s' (if env.decommit = none ∧ pagesIn unit s (unitOf unit page) = {page}
      then units.erase (unitOf unit page) else units) := by
  have hpl : unitOf unit page ∈ units := by
    obtain ⟨u, hu, i, hi, rfl⟩ := h.page page hout
    rw [unitOf_pageAddr hw (h.unit_aligned hu) hi]
    exact hu
  have hkeep := h.decommit hw hout
  have hzero := h.numUsed_decommit hw hout hpl
  unfold funchookPageFree at hcall
  cases hdecommit : env.decommit with
  | some e =>
    simp only [hdecommit] at hcall
    cases hcall
    simpa using h
  | none =>
    simp only [hdecommit] at hcall
    by_cases hlast : (s.decommit unit page).numUsed (unitOf unit page) = 0
    · have hlinks := hkeep.unlink hpl hlast
      rw [if_neg (not_not.mpr hlast)] at hcall
      rw [if_pos ⟨rfl, hzero.mp hlast⟩]
      cases hrelease : env.release with
      | some e =>
        simp only [hrelease] at hcall
        cases hcall
        exact hlinks
      | none =>
        simp only [hrelease] at hcall
        cases hcall
        apply hlinks.release
        have hnodup := (List.nodup_cons.mp h.ring.1).2
        exact fun hmem => (hnodup.mem_erase_iff.mp hmem).1 rfl
    · rw [if_pos hlast] at hcall
      rw [if_neg fun hand => hlast (hzero.mpr hand.2)]
      cases hcall
      exact hkeep

/-! ## Runs -/

/-- One call, by any handle, with its result. -/
inductive Call (w : ℕ) where
  | alloc (avail : Addr w → Bool) (env : AllocEnv w) (result : Except Failure (Addr w))
  | free (page : Addr w) (env : FreeEnv) (result : Option Failure)

variable (unit head) in
def Step (s : PageListState w) : Call w → PageListState w → Prop
  | .alloc avail env result, s' =>
    ∃ rounds, funchookPageAlloc unit head rounds s avail env = some (result, s')
  | .free page env result, s' => funchookPageFree unit s page env = (result, s')

variable (unit head) in
/-- The system reserves fresh units, and a page that is freed is outstanding. -/
def Allowed (s : PageListState w) : Call w → Prop
  | .alloc _ env _ => ∀ hint pl, env.reserve hint = .ok pl → Fresh unit head s pl
  | .free page _ _ => page ∈ s.outstanding

variable (unit) in
/-- The call decommits the last outstanding page of a unit. -/
def FreesLast (s : PageListState w) (u : Addr w) : Call w → Prop
  | .alloc _ _ _ => False
  | .free page env _ => env.decommit = none ∧ pagesIn unit s u = {page}

/-- A unit on the list: a walk along `next` from the head meets it. -/
def OnList (head : Addr w) (s : PageListState w) (u : Addr w) : Prop :=
  u ≠ head ∧ Reaches s.links head u

theorem Inv.onList_iff (h : Inv unit head s units) : OnList head s u ↔ u ∈ units := by
  have hnot := (List.nodup_cons.mp h.ring.1).1
  rw [OnList, h.ring.reaches_iff, List.mem_cons]
  constructor
  · rintro ⟨hne, rfl | hmem⟩
    · exact absurd rfl hne
    · exact hmem
  · intro hmem
    refine ⟨?_, Or.inr hmem⟩
    rintro rfl
    exact hnot hmem

/-- What one call keeps, and the units that it takes off the list. -/
theorem Inv.step (hw : 32 ≤ w) (h : Inv unit head s units) {c : Call w}
    (hallowed : Allowed unit head s c) (hstep : Step unit head s c s') :
    ∃ units', Inv unit head s' units' ∧ ∀ u ∈ units, u ∉ units' ↔ FreesLast unit s u c := by
  cases c with
  | alloc avail env result =>
    obtain ⟨rounds, hcall⟩ := hstep
    obtain ⟨units', hsub, hinv, -⟩ := h.alloc hw hallowed hcall
    refine ⟨units', hinv, fun u hu => ?_⟩
    simp only [FreesLast, iff_false, not_not]
    exact hsub hu
  | free page env result =>
    refine ⟨_, h.free hw hallowed hstep, fun u hu => ?_⟩
    have hnodup := (List.nodup_cons.mp h.ring.1).2
    show _ ↔ env.decommit = none ∧ pagesIn unit s u = {page}
    by_cases hunit : u = unitOf unit page
    · subst hunit
      split_ifs with hlast
      · simp [hnodup.mem_erase_iff, hlast]
      · simp [hu, hlast]
    · have hnot : pagesIn unit s u ≠ {page} := by
        intro hsingle
        have hmem : page ∈ pagesIn unit s u := by rw [hsingle]; exact Finset.mem_singleton_self page
        exact hunit (Finset.mem_filter.mp hmem).2.symm
      split_ifs with hlast
      · simp [List.mem_erase_of_ne hunit, hu, hnot]
      · simp [hu, hnot]

theorem exists_inv (hw : 32 ≤ w)
    (h : Run (Step unit head) (Allowed unit head) (.start head) s) :
    ∃ units, Inv unit head s units := by
  refine @Run.invariant _ _ (Step unit head) (Allowed unit head) _ _
    (fun t => ∃ units, Inv unit head t units) ⟨[], Inv.start⟩ ?_ h
  rintro s c s' ⟨units, hinv⟩ hallowed hstep
  obtain ⟨units', hinv', -⟩ := hinv.step hw hallowed hstep
  exact ⟨units', hinv'⟩

/-- **The list of units over every run**: the links are inverse to each other and form one ring
through the head; `num_used` of a unit on the list counts its flags and its outstanding pages;
every `funchook_page_alloc` returns, and a page that it returns was not outstanding and begins no
unit; and a unit leaves the list with a call if and only if the call decommits its last outstanding
page. -/
theorem page_list_invariant (hw : 32 ≤ w) (unit : AllocationUnit pageSize) (head : Addr w)
    {s : PageListState w} (h : Run (Step unit head) (Allowed unit head) (.start head) s) :
    (∃ units, IsRing s.links head units ∧ ∀ u, OnList head s u ↔ u ∈ units) ∧
    (∀ u, u = head ∨ OnList head s u →
      s.links.prev (s.links.next u) = u ∧ s.links.next (s.links.prev u) = u) ∧
    (∀ u, OnList head s u → s.numUsed u = (usedFlags unit s u).card ∧
      s.numUsed u = (pagesIn unit s u).card) ∧
    (∀ avail env, ∃ result s', Step unit head s (.alloc avail env result) s') ∧
    (∀ avail env page s', Allowed unit head s (.alloc avail env (.ok page)) →
      Step unit head s (.alloc avail env (.ok page)) s' →
      page ∉ s.outstanding ∧ page ∉ s'.reserved) ∧
    ∀ c s', Allowed unit head s c → Step unit head s c s' → ∀ u, OnList head s u →
      (¬ OnList head s' u ↔ FreesLast unit s u c) := by
  obtain ⟨units, hinv⟩ := exists_inv hw h
  refine ⟨⟨units, hinv.ring, fun u => hinv.onList_iff⟩, ?_, ?_, ?_, ?_, ?_⟩
  · intro u hu
    apply hinv.ring.inverse
    rw [List.mem_cons]
    exact hu.imp id hinv.onList_iff.mp
  · intro u hu
    rw [hinv.onList_iff] at hu
    refine ⟨hinv.numUsed u hu, ?_⟩
    rw [hinv.card_pagesIn hw hu]
    exact hinv.numUsed u hu
  · intro avail env
    obtain ⟨rounds, result, s', hcall⟩ := hinv.alloc_returns avail env
    exact ⟨result, s', rounds, hcall⟩
  · rintro avail env page s' hallowed ⟨rounds, hcall⟩
    obtain ⟨units', -, hinv', hpage⟩ := hinv.alloc hw hallowed hcall
    obtain ⟨hout, haligned⟩ := hpage page rfl
    exact ⟨hout, fun hmem => haligned (hinv'.aligned page hmem)⟩
  · intro c s' hallowed hstep u hu
    obtain ⟨units', hinv', hgone⟩ := hinv.step hw hallowed hstep
    rw [hinv'.onList_iff]
    exact hgone u (hinv.onList_iff.mp hu)

/-! ## One unit -/

def sampleHead : Addr 64 := 0x140005000

/-- No page is on the list, and a unit is reserved for the first one. -/
def sampleAlloc : Call 64 :=
  .alloc (fun _ => true) ⟨.ok 0x150000000, fun _ => .ok 0x150000000, none, none, none⟩
    (.ok 0x150001000)

def oneUnit : PageListState 64 :=
  ((PageListState.start sampleHead).insertUnit sampleHead 0x150000000).commit
    (X86.sampleBuild .x86_64).pageSize 0x150000000 0

theorem oneUnit_run : Run (Step searchUnit sampleHead) (Allowed searchUnit sampleHead)
    (.start sampleHead) oneUnit := by
  refine .call .start sampleAlloc ?_ ⟨1, rfl⟩
  rintro hint pl ⟨⟩
  exact ⟨by decide, by simp [PageListState.start], by decide⟩

def releaseFails : FreeEnv := ⟨none, some ⟨487, "Attempt to access invalid address."⟩⟩

/-- The release of the unit fails, and it is off the list nevertheless. -/
theorem page_list_invariant_oneUnit :
    OnList sampleHead oneUnit 0x150000000 ∧ oneUnit.numUsed 0x150000000 = 1 ∧
      ¬ OnList sampleHead (funchookPageFree searchUnit oneUnit 0x150001000 releaseFails).2
        0x150000000 := by
  have hlisted : OnList sampleHead oneUnit 0x150000000 := ⟨by decide, 1, by rfl⟩
  refine ⟨hlisted, by rfl, ?_⟩
  have hall := page_list_invariant (by decide) searchUnit sampleHead oneUnit_run
  let call : Call 64 := .free 0x150001000 releaseFails
    (funchookPageFree searchUnit oneUnit 0x150001000 releaseFails).1
  have hlast : FreesLast searchUnit oneUnit 0x150000000 call := ⟨rfl, by decide⟩
  have hallowed : Allowed searchUnit sampleHead oneUnit call := by
    show (0x150001000 : Addr 64) ∈ oneUnit.outstanding
    decide
  exact (hall.2.2.2.2.2 call _ hallowed rfl _ hlisted).mpr hlast

end Funchook.Windows.PageList
