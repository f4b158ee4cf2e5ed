import Mathlib.Data.List.Basic
import Funchook.ArchX86

/-!
# Pages from allocation units on Windows (`os_windows.c`, 64-bit)

`funchookPageAlloc` takes the first unused page of the units on `page_list`, a list that all
handles of a process share, or reserves a unit in the first free region with room at or above the
function. `funchook_page_avail` is asked for the pages of the list only. What the system answers is
data: the region that holds an address, and how each `VirtualAlloc` ends.
-/

namespace Funchook.Windows

open X86 (PageSize)

/-- `allocation_unit`, the granularity of reservations: a power of two of 32 bits above the page
size. -/
structure AllocationUnit (pageSize : PageSize) where
  log : ℕ
  larger : pageSize.log < log
  upper : log < 32

variable {pageSize : PageSize}

def AllocationUnit.toNat (unit : AllocationUnit pageSize) : ℕ := 2 ^ unit.log

/-- `allocation_unit` as a `size_t`. -/
def AllocationUnit.size (unit : AllocationUnit pageSize) : Addr 64 := BitVec.ofNat 64 unit.toNat

/-- `max_num_pages` -/
def AllocationUnit.maxNumPages (unit : AllocationUnit pageSize) : ℕ :=
  unit.toNat / pageSize.toNat - 1

variable (unit : AllocationUnit pageSize)

/-- An address where `VirtualAlloc` reserves a unit. -/
def UnitAddr : Type := { a : Addr 64 // a.toNat % unit.toNat = 0 }

/-- `struct page_info` at its address; a list of them stands in the order of the links `next`. -/
structure PageInfo where
  addr : UnitAddr unit
  numUsed : ℕ
  used : List Bool

variable {unit}

/-- `used[i]` -/
def PageInfo.isUsed (pl : PageInfo unit) (i : ℕ) : Bool := pl.used[i]?.getD false

/-- The page with the number `i`; the page before the first one holds the `page_info`. -/
def PageInfo.pageAddr (pl : PageInfo unit) (i : ℕ) : Addr 64 :=
  pl.addr.val + BitVec.ofNat 64 ((i + 1) * pageSize.toNat)

/-- `used[i] = 1` and `num_used++` -/
def PageInfo.commit (pl : PageInfo unit) (i : ℕ) : PageInfo unit :=
  { pl with used := pl.used.set i true, numUsed := pl.numUsed + 1 }

/-- The zero-filled `page_info` of a new unit. -/
def PageInfo.new (addr : UnitAddr unit) : PageInfo unit :=
  ⟨addr, 0, List.replicate unit.maxNumPages false⟩

/-! ## Answers of the system -/

/-- `GetLastError()` with the text that `to_errmsg` gives it. -/
structure OsError where
  err : BitVec 32
  message : String
  deriving DecidableEq, Repr

/-- The members of `MEMORY_BASIC_INFORMATION` that are read. -/
structure MemoryBasicInformation where
  baseAddress : Addr 64
  regionSize : Addr 64
  /-- `mbi.State == MEM_FREE` -/
  free : Bool
  deriving DecidableEq, Repr

/-- `(size_t)mbi.BaseAddress + mbi.RegionSize` -/
def MemoryBasicInformation.stop (mbi : MemoryBasicInformation) : Addr 64 :=
  mbi.baseAddress + mbi.regionSize

variable (unit) in
/-- What the system answers during one `funchook_page_alloc`: the region that holds an address,
where a unit is reserved for a hint, and the error of each of the two commits. -/
structure PageAllocEnv where
  virtualQuery : Addr 64 → Except OsError MemoryBasicInformation
  reserve : Addr 64 → Except OsError (UnitAddr unit)
  commitInfo : Option OsError
  commitPage : Option OsError

/-- The text that `%p` prints: 16 digits. -/
def fmtPointer (a : Addr 64) : String :=
  let digits := (Nat.toDigits 16 a.toNat).map Char.toUpper
  String.ofList (List.replicate (16 - digits.length) '0' ++ digits)

/-- `%lu(%s)` for an error and its text. -/
def fmtError (e : OsError) : String :=
  toString e.err.toNat ++ "(" ++ e.message ++ ")"

/-! ## A new unit -/

variable (unit) in
/-- The hint that the loop of `alloc_page_info` breaks with at a region. -/
def roomFor (mbi : MemoryBasicInformation) : Option (Addr 64) :=
  if mbi.free then
    let addr := roundUp mbi.baseAddress unit.size
    let diff := addr - mbi.baseAddress
    if 0 ≤ diff.toInt then
      if unit.size.ule (mbi.regionSize - diff) then some addr else none
    else none
  else none

/-- The loop of `alloc_page_info` over the regions from `hint` on, for so many rounds. -/
def searchFree (env : PageAllocEnv unit) : ℕ → Addr 64 → Option (Except Failure (Addr 64))
  | 0, _ => none
  | rounds + 1, hint =>
    match env.virtualQuery hint with
    | .error e => some (.error ⟨errorMemoryFunction, "Failed to execute VirtualQuery (addr=" ++
        fmtPointer hint ++ ", error=" ++ fmtError e ++ ")"⟩)
    | .ok mbi =>
      match roomFor unit mbi with
      | some addr => some (.ok addr)
      | none => searchFree env rounds mbi.stop

/-- `alloc_page_info` behind its loop. -/
def reserveUnit (env : PageAllocEnv unit) (hint : Addr 64) : Except Failure (PageInfo unit) :=
  match env.reserve hint with
  | .error e => .error ⟨errorMemoryAllocation, "Failed to reserve memory " ++ fmtPointer 0 ++
      " (hint=" ++ fmtPointer hint ++ ", size=" ++ toString unit.toNat ++ ", errro=" ++
      fmtError e ++ ")"⟩
  | .ok pl =>
    match env.commitInfo with
    | some e => .error ⟨errorMemoryFunction, "Failed to commit memory " ++ fmtPointer 0 ++
        " for read-write (hint=" ++ fmtPointer pl.val ++ ", size=" ++ toString pageSize.toNat ++
        ", error=" ++ fmtError e ++ ")"⟩
    | none => .ok (.new pl)

/-- `alloc_page_info`, for so many rounds of its loop; `none` when they do not suffice. -/
def allocPageInfo (env : PageAllocEnv unit) (rounds : ℕ) (hint : Addr 64) :
    Option (Except Failure (PageInfo unit)) :=
  (searchFree env rounds hint).map fun found => found >>= reserveUnit env

/-! ## A page of a unit -/

/-- The inner loop of `funchook_page_alloc` over the pages of one unit. -/
def findUnused (avail : Addr 64 → Bool) (pl : PageInfo unit) : Option ℕ :=
  (List.range unit.maxNumPages).find? fun i => !pl.isUsed i && avail (pl.pageAddr i)

/-- An unused page, with the units before and behind its own. -/
structure FoundUnused (unit : AllocationUnit pageSize) where
  before : List (PageInfo unit)
  pl : PageInfo unit
  idx : ℕ
  after : List (PageInfo unit)

/-- `page` at `exit_loop` -/
def FoundUnused.page (found : FoundUnused unit) : Addr 64 := found.pl.pageAddr found.idx

/-- The outer loop of `funchook_page_alloc` over the units of the list. -/
def findPage (avail : Addr 64 → Bool) : List (PageInfo unit) → Option (FoundUnused unit)
  | [] => none
  | pl :: pls =>
    match findUnused avail pl with
    | some i => some ⟨[], pl, i, pls⟩
    | none => (findPage avail pls).map fun found => { found with before := pl :: found.before }

/-- `funchook_page_alloc` behind `exit_loop`: the list after it and what it returns. -/
def commitFound (env : PageAllocEnv unit) (found : FoundUnused unit) :
    List (PageInfo unit) × Except Failure (Addr 64) :=
  match env.commitPage with
  | some e => (found.before ++ found.pl :: found.after,
      .error ⟨errorMemoryFunction, "Failed to commit page " ++ fmtPointer found.page ++ " (base=" ++
        fmtPointer found.pl.addr.val ++ "(used=" ++ toString found.pl.numUsed ++ "), idx=" ++
        toString found.idx ++ ", size=" ++ toString pageSize.toNat ++ ", error=" ++ fmtError e ++
        ")"⟩)
  | none => (found.before ++ found.pl.commit found.idx :: found.after, .ok found.page)

/-- `funchook_page_alloc` for a function, with the list of units; `none` when the rounds do not
suffice for the loop of `alloc_page_info`. A new unit is put at the head of the list. -/
def funchookPageAlloc (avail : Addr 64 → Bool) (env : PageAllocEnv unit) (rounds : ℕ)
    (units : List (PageInfo unit)) (func : Addr 64) :
    Option (List (PageInfo unit) × Except Failure (Addr 64)) :=
  match findPage avail units with
  | some found => some (commitFound env found)
  | none =>
    match allocPageInfo env rounds func with
    | none => none
    | some (.error f) => some (units, .error f)
    | some (.ok pl) => some (commitFound env ⟨[], pl, 0, units⟩)

/-! ## Which page is returned -/

/-- The unused pages of the units, in the order of the list. -/
def unusedPages (avail : Addr 64 → Bool) (units : List (PageInfo unit)) : List (Addr 64) :=
  units.flatMap fun pl => ((List.range unit.maxNumPages).filter fun i =>
    !pl.isUsed i && avail (pl.pageAddr i)).map pl.pageAddr

theorem findPage_eq_head (avail : Addr 64 → Bool) (units : List (PageInfo unit)) :
    (findPage avail units).map FoundUnused.page = (unusedPages avail units).head? := by
  induction units with
  | nil => rfl
  | cons pl pls ih =>
    rw [unusedPages, List.flatMap_cons, List.head?_append, List.head?_map, List.head?_filter,
      findPage]
    show Option.map FoundUnused.page (match findUnused avail pl with
      | some i => some ⟨[], pl, i, pls⟩
      | none => (findPage avail pls).map fun found => { found with before := pl :: found.before }) =
        ((findUnused avail pl).map pl.pageAddr).or (unusedPages avail pls).head?
    cases findUnused avail pl with
    | some i => rfl
    | none =>
      rw [← ih]
      cases findPage avail pls <;> rfl

/-- The hint for a new unit: the first region with room among those that follow one another from
an address on. -/
inductive FirstRoom (env : PageAllocEnv unit) : Addr 64 → Addr 64 → Prop where
  | here {start hint : Addr 64} {mbi : MemoryBasicInformation}
      (hquery : env.virtualQuery start = .ok mbi) (hroom : roomFor unit mbi = some hint) :
      FirstRoom env start hint
  | next {start hint : Addr 64} {mbi : MemoryBasicInformation}
      (hquery : env.virtualQuery start = .ok mbi) (hroom : roomFor unit mbi = none)
      (hrest : FirstRoom env mbi.stop hint) : FirstRoom env start hint

variable {env : PageAllocEnv unit}

theorem FirstRoom.unique {start hint hint' : Addr 64} (h : FirstRoom env start hint)
    (h' : FirstRoom env start hint') : hint = hint' := by
  induction h with
  | here hquery hroom =>
    cases h' with
    | here hquery' hroom' =>
      cases hquery.symm.trans hquery'
      exact Option.some.inj (hroom.symm.trans hroom')
    | next hquery' hroom' _ =>
      cases hquery.symm.trans hquery'
      cases hroom.symm.trans hroom'
  | next hquery hroom _ ih =>
    cases h' with
    | here hquery' hroom' =>
      cases hquery.symm.trans hquery'
      cases hroom.symm.trans hroom'
    | next hquery' _ hrest' =>
      cases hquery.symm.trans hquery'
      exact ih hrest'

theorem searchFree_ok {rounds : ℕ} {start hint : Addr 64}
    (h : searchFree env rounds start = some (.ok hint)) : FirstRoom env start hint := by
  induction rounds generalizing start with
  | zero => cases h
  | succ rounds ih =>
    rw [searchFree] at h
    cases hquery : env.virtualQuery start with
    | error e =>
      rw [hquery] at h
      cases h
    | ok mbi =>
      rw [hquery] at h
      dsimp only at h
      cases hroom : roomFor unit mbi with
      | some addr =>
        rw [hroom] at h
        cases h
        exact .here hquery hroom
      | none =>
        rw [hroom] at h
        exact .next hquery hroom (ih h)

theorem reserveUnit_ok {hint : Addr 64} {pl : PageInfo unit} (h : reserveUnit env hint = .ok pl) :
    ∃ addr, env.reserve hint = .ok addr ∧ pl = .new addr := by
  rw [reserveUnit] at h
  cases hreserve : env.reserve hint with
  | error e =>
    rw [hreserve] at h
    cases h
  | ok addr =>
    rw [hreserve] at h
    cases hcommit : env.commitInfo with
    | some e =>
      rw [hcommit] at h
      cases h
    | none =>
      rw [hcommit] at h
      exact ⟨addr, rfl, (Except.ok.inj h).symm⟩

theorem allocPageInfo_ok {rounds : ℕ} {func : Addr 64} {pl : PageInfo unit}
    (h : allocPageInfo env rounds func = some (.ok pl)) :
    ∃ hint addr, FirstRoom env func hint ∧ env.reserve hint = .ok addr ∧ pl = .new addr := by
  obtain ⟨found, hfound, hbind⟩ := Option.map_eq_some_iff.mp h
  obtain ⟨hint, rfl, hreserve⟩ := exceptBind_ok hbind
  obtain ⟨addr, haddr, hpl⟩ := reserveUnit_ok hreserve
  exact ⟨hint, addr, searchFree_ok hfound, haddr, hpl⟩

theorem commitFound_ok {found : FoundUnused unit} {page : Addr 64}
    (h : (commitFound env found).2 = .ok page) : page = found.page := by
  unfold commitFound at h
  split at h
  · cases h
  · exact (Except.ok.inj h).symm

/-- **The page returned.** It is the first unused page of the list; or no page there is unused, and
it is the first page of the unit reserved for the first region with room. -/
theorem funchookPageAlloc_ok {avail : Addr 64 → Bool} {rounds : ℕ}
    {units units' : List (PageInfo unit)} {func page : Addr 64}
    (h : funchookPageAlloc avail env rounds units func = some (units', .ok page)) :
    (unusedPages avail units).head? = some page ∨
      unusedPages avail units = [] ∧ ∃ hint addr, FirstRoom env func hint ∧
        env.reserve hint = .ok addr ∧ page = (PageInfo.new addr).pageAddr 0 := by
  have hhead := findPage_eq_head avail units
  unfold funchookPageAlloc at h
  cases hfind : findPage avail units with
  | some found =>
    rw [hfind] at h hhead
    have hpage := commitFound_ok (congrArg Prod.snd (Option.some.inj h))
    exact Or.inl (hpage ▸ hhead.symm)
  | none =>
    rw [hfind] at h hhead
    dsimp only at h
    cases halloc : allocPageInfo env rounds func with
    | none =>
      rw [halloc] at h
      cases h
    | some result =>
      rw [halloc] at h
      cases result with
      | error f => cases h
      | ok pl =>
        obtain ⟨hint, addr, hroom, hreserve, rfl⟩ := allocPageInfo_ok halloc
        have hpage := commitFound_ok (congrArg Prod.snd (Option.some.inj h))
        exact Or.inr ⟨List.head?_eq_none_iff.mp hhead.symm, hint, addr, hroom, hreserve, hpage⟩

/-- Every page of a unit lies at a multiple of 4096. -/
theorem pageAddr_aligned (pl : PageInfo unit) (i : ℕ) : (pl.pageAddr i).toNat % 4096 = 0 := by
  have hpage : 4096 ∣ pageSize.toNat := Nat.pow_dvd_pow 2 pageSize.lower
  have hunit : 4096 ∣ unit.toNat :=
    Nat.pow_dvd_pow 2 (Nat.le_trans pageSize.lower (Nat.le_of_lt unit.larger))
  have haddr : 4096 ∣ pl.addr.val.toNat :=
    Nat.dvd_trans hunit (Nat.dvd_of_mod_eq_zero pl.addr.property)
  have hoffset : 4096 ∣ (i + 1) * pageSize.toNat := Nat.dvd_mul_left_of_dvd hpage _
  rw [PageInfo.pageAddr, BitVec.toNat_add, BitVec.toNat_ofNat]
  omega

theorem funchookPageAlloc_aligned {avail : Addr 64 → Bool} {rounds : ℕ}
    {units units' : List (PageInfo unit)} {func page : Addr 64}
    (h : funchookPageAlloc avail env rounds units func = some (units', .ok page)) :
    page.toNat % 4096 = 0 := by
  rcases funchookPageAlloc_ok h with hhead | ⟨-, hint, addr, -, -, rfl⟩
  · obtain ⟨pl, -, hpl⟩ := List.mem_flatMap.mp (List.mem_of_head? hhead)
    obtain ⟨i, -, rfl⟩ := List.mem_map.mp hpl
    exact pageAddr_aligned pl i
  · exact pageAddr_aligned _ 0

end Funchook.Windows
