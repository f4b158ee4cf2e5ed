import Funchook.Handle

/-!
# Pages near a function on Unix (`os_unix.c`, 64-bit)

`getFreeAddress` walks the map of the process and picks a page below and one above a function;
`funchookPageAlloc` asks for these pages up to three times. What the system answers is data: the
map that each attempt reads, and for each `mmap` the address it returns. `calls` records the
`mmap` and `munmap` calls made.
-/

namespace Funchook.Unix

/-- `INT32_MAX` where it is compared with a `size_t`. -/
def int32Max : Addr 64 := 0x7fffffff

/-- `MAP_FAILED` -/
def mapFailed : Addr 64 := -1

/-- A line of the process map. -/
structure Region where
  start : Addr 64
  stop : Addr 64
  deriving DecidableEq, Repr

/-- `addrs[0]` and `addrs[1]`; null when there is none. -/
structure Candidates where
  before : Addr 64
  after : Addr 64
  deriving DecidableEq, Repr

/-- What one `mmap` returns, with the text of `errno`. -/
structure MmapAnswer where
  page : Addr 64
  error : String
  deriving DecidableEq, Repr

inductive PageCall where
  | mmap (hint page : Addr 64)
  | munmap (page : Addr 64)
  deriving DecidableEq, Repr

/-- What the system answers during one `funchook_page_alloc`: the map read by each attempt and
the `mmap` of each of its candidates. -/
structure PageAllocEnv where
  maps : ℕ → Except Failure (List Region)
  mmapBefore : ℕ → MmapAnswer
  mmapAfter : ℕ → MmapAnswer

variable (pageSize : Addr 64)

/-- `addrs[1]`, once the end of a region lies above the function. -/
def candidateAfter (funcAddr prevEnd : Addr 64) : Addr 64 :=
  if (prevEnd - funcAddr).ult int32Max then prevEnd else 0

/-- The loop of `get_free_address` over the regions left, with `prev_end` and `addrs[0]`. -/
def getFreeAddressLoop (funcAddr : Addr 64) :
    List Region → Addr 64 → Addr 64 → Except Failure Candidates
  | [], prevEnd, before =>
    if funcAddr.ult prevEnd then .ok ⟨before, candidateAfter funcAddr prevEnd⟩
    else .error ⟨errorMemoryAllocation, "Could not find a free region near " ++ fmtPtr funcAddr⟩
  | region :: regions, prevEnd, before =>
    if (prevEnd + pageSize).ule region.start then
      let before :=
        if region.start.ult funcAddr ∧ (funcAddr - (region.start - pageSize)).ult int32Max then
          region.start - pageSize
        else before
      if funcAddr.ult prevEnd then .ok ⟨before, candidateAfter funcAddr prevEnd⟩
      else getFreeAddressLoop funcAddr regions region.stop before
    else getFreeAddressLoop funcAddr regions region.stop before

def getFreeAddress (map : Except Failure (List Region)) (funcAddr : Addr 64) :
    Except Failure Candidates :=
  match map with
  | .error f => .error f
  | .ok regions => getFreeAddressLoop pageSize funcAddr regions 0 0

/-- `SAFE_JUMP_DISTANCE` -/
def safeJumpDistance (x y : Addr 64) : Bool := (x - y).ult (int32Max - pageSize)

/-- The body of the inner loop for one candidate: the calls made, and the result when the function
returns. -/
def tryCandidate (func addr : Addr 64) (answer : MmapAnswer) :
    List PageCall × Option (Except Failure (Addr 64)) :=
  if addr = 0 then ([], none)
  else if safeJumpDistance pageSize func answer.page || safeJumpDistance pageSize answer.page func
  then ([.mmap addr answer.page], some (.ok answer.page))
  else if answer.page = mapFailed then
    ([.mmap addr answer.page], some (.error ⟨errorMemoryAllocation,
      "mmap failed(addr=" ++ fmtPtr addr ++ "): " ++ answer.error⟩))
  else ([.mmap addr answer.page, .munmap answer.page], none)

/-- The attempts left, from the one numbered `loopCnt`. -/
def pageAllocLoop (env : PageAllocEnv) (func : Addr 64) :
    ℕ → ℕ → List PageCall × Except Failure (Addr 64)
  | 0, _ => ([], .error ⟨errorMemoryAllocation, "Failed to allocate memory in unused regions"⟩)
  | attempts + 1, loopCnt =>
    match getFreeAddress pageSize (env.maps loopCnt) func with
    | .error f => ([], .error f)
    | .ok addrs =>
      match tryCandidate pageSize func addrs.after (env.mmapAfter loopCnt) with
      | (calls, some result) => (calls, result)
      | (calls, none) =>
        match tryCandidate pageSize func addrs.before (env.mmapBefore loopCnt) with
        | (calls', some result) => (calls ++ calls', result)
        | (calls', none) =>
          let (rest, result) := pageAllocLoop env func attempts (loopCnt + 1)
          (calls ++ calls' ++ rest, result)

/-- `funchook_page_alloc` -/
def funchookPageAlloc (env : PageAllocEnv) (func : Addr 64) :
    List PageCall × Except Failure (Addr 64) :=
  pageAllocLoop pageSize env func 3 0

/-! ## The distance of an accepted page -/

theorem tryCandidate_ok {func addr page : Addr 64} {answer : MmapAnswer} {calls : List PageCall}
    (h : tryCandidate pageSize func addr answer = (calls, some (.ok page))) :
    safeJumpDistance pageSize func page = true ∨ safeJumpDistance pageSize page func = true := by
  unfold tryCandidate at h
  split at h
  · cases h
  · split at h
    · rename_i hsafe
      cases h
      exact Bool.or_eq_true_iff.mp hsafe
    · split at h <;> cases h

theorem pageAllocLoop_ok {env : PageAllocEnv} {func page : Addr 64} {attempts loopCnt : ℕ}
    (h : (pageAllocLoop pageSize env func attempts loopCnt).2 = .ok page) :
    safeJumpDistance pageSize func page = true ∨ safeJumpDistance pageSize page func = true := by
  induction attempts generalizing loopCnt with
  | zero => cases h
  | succ attempts ih =>
    rw [pageAllocLoop] at h
    split at h
    · cases h
    · split at h
      · rename_i calls result htry
        obtain rfl : result = .ok page := h
        exact tryCandidate_ok pageSize htry
      · split at h
        · rename_i calls' result htry
          obtain rfl : result = .ok page := h
          exact tryCandidate_ok pageSize htry
        · exact ih h

/-- Addresses within a safe distance are less than 2 GB apart, for OS pages of at most 1 GB. -/
theorem safeJumpDistance_near {src dst : Addr 64} (hsize : pageSize.toNat ≤ 2 ^ 30)
    (h : safeJumpDistance pageSize src dst = true ∨ safeJumpDistance pageSize dst src = true) :
    -2 ^ 31 ≤ (dst - src).toInt ∧ (dst - src).toInt < 2 ^ 31 := by
  have hmax : int32Max.toNat = 2 ^ 31 - 1 := rfl
  have hlimit : (int32Max - pageSize).toNat = 2 ^ 31 - 1 - pageSize.toNat := by
    rw [BitVec.toNat_sub]
    omega
  have hd := dst.isLt
  have hs := src.isLt
  have hds := BitVec.toNat_sub dst src
  have hsd := BitVec.toNat_sub src dst
  rcases h with hsafe | hsafe <;>
  · simp only [safeJumpDistance, BitVec.ult, decide_eq_true_eq, hlimit] at hsafe
    rw [BitVec.toInt_eq_toNat_cond]
    split <;> omega

/-- `funchook_page_alloc` returns no page but one within a safe distance. -/
theorem funchookPageAlloc_safe {env : PageAllocEnv} {func page : Addr 64}
    (h : (funchookPageAlloc pageSize env func).2 = .ok page) :
    safeJumpDistance pageSize func page = true ∨ safeJumpDistance pageSize page func = true :=
  pageAllocLoop_ok pageSize h

end Funchook.Unix
