import Funchook.OsUnix

/-!
# The pages one call of `funchook_page_alloc` maps (Unix, 64-bit)

Every call of `mmap` that the allocator makes is followed by `munmap`, returned, or a failure. The
log of a call is described by one rule for each of these, and what the call leaves mapped is read
off the rules: nothing after an error, and the page returned after a success. The distance is tested
before `MAP_FAILED` is, so a function close to the address that `MAP_FAILED` stands for is given
that address as its page.
-/

namespace Funchook.Unix

variable (pageSize : Addr 64)

/-- The test of the allocator, in either direction. Distances wrap as jumps do. -/
def withinReach (func page : Addr 64) : Bool :=
  safeJumpDistance pageSize func page || safeJumpDistance pageSize page func

/-- The pages mapped and not unmapped again, the last one first. -/
def leftMapped : List PageCall → List (Addr 64) → List (Addr 64)
  | [], pages => pages
  | .mmap _ page :: calls, pages =>
    leftMapped calls (if page = mapFailed then pages else page :: pages)
  | .munmap page :: calls, pages => leftMapped calls (pages.erase page)

/-- The answer of the `mmap` for a candidate, unless the candidate is null. -/
def candidateAnswer (addr : Addr 64) (answer : MmapAnswer) : List (Addr 64) :=
  if addr = 0 then [] else [answer.page]

/-- The answers of `mmap` to the candidates of the attempts left, in the order they are tried, up to
an attempt that finds no candidates. -/
def candidateAnswers (env : PageAllocEnv) (func : Addr 64) : ℕ → ℕ → List (Addr 64)
  | 0, _ => []
  | attempts + 1, loopCnt =>
    match getFreeAddress pageSize (env.maps loopCnt) func with
    | .error _ => []
    | .ok addrs =>
      candidateAnswer addrs.after (env.mmapAfter loopCnt) ++
        (candidateAnswer addrs.before (env.mmapBefore loopCnt) ++
          candidateAnswers env func attempts (loopCnt + 1))

/-! ## The log of a call -/

/-- How the calls and the result of the allocator come from the answers to its candidates. -/
inductive AllocLog (func : Addr 64) :
    List (Addr 64) → List PageCall → Except Failure (Addr 64) → Prop
  | exhausted (f : Failure) : AllocLog func [] [] (.error f)
  | accepted (hint page : Addr 64) (answers : List (Addr 64))
      (hnear : withinReach pageSize func page = true) :
      AllocLog func (page :: answers) [.mmap hint page] (.ok page)
  | failed (hint : Addr 64) (answers : List (Addr 64)) (f : Failure)
      (hfar : withinReach pageSize func mapFailed = false) :
      AllocLog func (mapFailed :: answers) [.mmap hint mapFailed] (.error f)
  | rejected (hint page : Addr 64) (hmapped : page ≠ mapFailed)
      (hfar : withinReach pageSize func page = false) {answers : List (Addr 64)}
      {calls : List PageCall} {result : Except Failure (Addr 64)}
      (hrest : AllocLog func answers calls result) :
      AllocLog func (page :: answers) (.mmap hint page :: .munmap page :: calls) result

/-- The inner loop goes on to the rest of the search when a candidate does not settle it. -/
def orElse (tried : List PageCall × Option (Except Failure (Addr 64)))
    (rest : List PageCall × Except Failure (Addr 64)) : List PageCall × Except Failure (Addr 64) :=
  match tried with
  | (calls, some result) => (calls, result)
  | (calls, none) => (calls ++ rest.1, rest.2)

variable {pageSize} {func : Addr 64}

theorem pageAllocLoop_succ (env : PageAllocEnv) {addrs : Candidates} (attempts : ℕ) {loopCnt : ℕ}
    (h : getFreeAddress pageSize (env.maps loopCnt) func = .ok addrs) :
    pageAllocLoop pageSize env func (attempts + 1) loopCnt =
      orElse (tryCandidate pageSize func addrs.after (env.mmapAfter loopCnt))
        (orElse (tryCandidate pageSize func addrs.before (env.mmapBefore loopCnt))
          (pageAllocLoop pageSize env func attempts (loopCnt + 1))) := by
  rw [pageAllocLoop, h]
  dsimp only
  rcases tryCandidate pageSize func addrs.after (env.mmapAfter loopCnt) with ⟨calls, _ | result⟩
  · rcases tryCandidate pageSize func addrs.before (env.mmapBefore loopCnt) with
      ⟨calls', _ | result⟩
    · exact congrArg (·, _) (List.append_assoc calls calls' _)
    · rfl
  · rfl

/-- One candidate adds one rule to the log. -/
theorem allocLog_orElse {addr : Addr 64} {answer : MmapAnswer} {answers : List (Addr 64)}
    {rest : List PageCall × Except Failure (Addr 64)}
    (h : AllocLog pageSize func answers rest.1 rest.2) :
    AllocLog pageSize func (candidateAnswer addr answer ++ answers)
      (orElse (tryCandidate pageSize func addr answer) rest).1
      (orElse (tryCandidate pageSize func addr answer) rest).2 := by
  unfold candidateAnswer tryCandidate
  rw [← withinReach]
  by_cases haddr : addr = 0
  · rw [if_pos haddr, if_pos haddr]
    exact h
  rw [if_neg haddr, if_neg haddr]
  cases hnear : withinReach pageSize func answer.page with
  | true =>
    rw [if_pos rfl]
    exact .accepted addr answer.page answers hnear
  | false =>
    rw [if_neg Bool.false_ne_true]
    by_cases hfailed : answer.page = mapFailed
    · rw [if_pos hfailed, hfailed]
      exact .failed addr answers _ (hfailed ▸ hnear)
    · rw [if_neg hfailed]
      exact .rejected addr answer.page hfailed hnear h

/-- **The log.** Every run of the attempts follows the rules. -/
theorem pageAllocLoop_log (env : PageAllocEnv) (func : Addr 64) (attempts loopCnt : ℕ) :
    AllocLog pageSize func (candidateAnswers pageSize env func attempts loopCnt)
      (pageAllocLoop pageSize env func attempts loopCnt).1
      (pageAllocLoop pageSize env func attempts loopCnt).2 := by
  induction attempts generalizing loopCnt with
  | zero => exact .exhausted _
  | succ attempts ih =>
    rw [candidateAnswers]
    cases hfree : getFreeAddress pageSize (env.maps loopCnt) func with
    | error f =>
      rw [pageAllocLoop, hfree]
      exact .exhausted f
    | ok addrs =>
      rw [pageAllocLoop_succ env attempts hfree]
      exact allocLog_orElse (allocLog_orElse (ih (loopCnt + 1)))

theorem funchookPageAlloc_log (env : PageAllocEnv) (func : Addr 64) :
    AllocLog pageSize func (candidateAnswers pageSize env func 3 0)
      (funchookPageAlloc pageSize env func).1 (funchookPageAlloc pageSize env func).2 :=
  pageAllocLoop_log env func 3 0

/-! ## When the allocator is sound -/

/-- After a success the page returned is mapped, within reach and the only one left mapped; after an
error none is. -/
def PageAllocSound (pageSize : Addr 64) (env : PageAllocEnv) (func : Addr 64) : Prop :=
  match (funchookPageAlloc pageSize env func).2 with
  | .ok page => page ≠ mapFailed ∧ leftMapped (funchookPageAlloc pageSize env func).1 [] = [page] ∧
      withinReach pageSize func page = true
  | .error _ => leftMapped (funchookPageAlloc pageSize env func).1 [] = []

/-- The first answer that settles the search: it is within reach or a failure. -/
def settlingAnswer (pageSize : Addr 64) (env : PageAllocEnv) (func : Addr 64) : Option (Addr 64) :=
  (candidateAnswers pageSize env func 3 0).find? fun page =>
    withinReach pageSize func page || page == mapFailed

/-- What is left mapped after a result, and which answer settled the search. -/
def AllocOutcome (pageSize func : Addr 64) (answers : List (Addr 64)) (calls : List PageCall) :
    Except Failure (Addr 64) → Prop
  | .ok page => withinReach pageSize func page = true ∧
      leftMapped calls [] = (if page = mapFailed then [] else [page]) ∧
      answers.find? (fun page => withinReach pageSize func page || page == mapFailed) = some page
  | .error _ => leftMapped calls [] = [] ∧
      (withinReach pageSize func mapFailed = true →
        answers.find? (fun page => withinReach pageSize func page || page == mapFailed) = none)

theorem AllocLog.outcome {answers : List (Addr 64)} {calls : List PageCall}
    {result : Except Failure (Addr 64)} (h : AllocLog pageSize func answers calls result) :
    AllocOutcome pageSize func answers calls result := by
  induction h with
  | exhausted f => exact ⟨rfl, fun _ => rfl⟩
  | accepted hint page answers hnear =>
    refine ⟨hnear, rfl, ?_⟩
    rw [List.find?_cons_of_pos]
    rw [hnear, Bool.true_or]
  | failed hint answers f hfar =>
    refine ⟨rfl, fun hnear => ?_⟩
    rw [hfar] at hnear
    cases hnear
  | rejected hint page hmapped hfar hrest ih =>
    rename_i answers calls result
    have hleft : leftMapped (.mmap hint page :: .munmap page :: calls) [] =
        leftMapped calls [] := by
      rw [leftMapped, leftMapped, if_neg hmapped, List.erase_cons_head]
    have hfind : (page :: answers).find?
        (fun page => withinReach pageSize func page || page == mapFailed) =
          answers.find? (fun page => withinReach pageSize func page || page == mapFailed) := by
      rw [List.find?_cons_of_neg]
      rw [hfar, Bool.false_or, beq_iff_eq]
      exact hmapped
    unfold AllocOutcome
    rw [hleft, hfind]
    exact ih

/-- **Soundness of the allocator.** It is sound if and only if `MAP_FAILED` is not, while counting
as an address within reach of the function, the answer that settles the search. -/
theorem pageAlloc_sound_iff (pageSize : Addr 64) (env : PageAllocEnv) (func : Addr 64) :
    PageAllocSound pageSize env func ↔
      ¬ (withinReach pageSize func mapFailed = true ∧
        settlingAnswer pageSize env func = some mapFailed) := by
  have hlog := (@funchookPageAlloc_log pageSize env func).outcome
  unfold PageAllocSound settlingAnswer
  revert hlog
  generalize (funchookPageAlloc pageSize env func).1 = calls
  cases (funchookPageAlloc pageSize env func).2 with
  | error f =>
    intro hlog
    obtain ⟨hleft, hnone⟩ := hlog
    refine ⟨fun _ h => ?_, fun _ => hleft⟩
    have hfind := hnone h.1
    rw [h.2] at hfind
    cases hfind
  | ok page =>
    intro hlog
    obtain ⟨hnear, hleft, hfind⟩ := hlog
    constructor
    · intro hsound h
      rw [hfind] at h
      exact hsound.1 (Option.some.inj h.2)
    · intro h
      have hmapped : page ≠ mapFailed := by
        intro hfailed
        rw [hfailed] at hnear hfind
        exact h ⟨hnear, hfind⟩
      rw [if_neg hmapped] at hleft
      exact ⟨hmapped, hleft, hnear⟩

/-- Every `mmap` fails. -/
def noMemoryEnv : PageAllocEnv where
  maps := fun _ => .ok [⟨0x400000, 0x402000⟩]
  mmapBefore := fun _ => ⟨mapFailed, "Cannot allocate memory"⟩
  mmapAfter := fun _ => ⟨mapFailed, "Cannot allocate memory"⟩

/-- A function in low memory: the allocator returns `MAP_FAILED` as its page. -/
theorem map_failed_returned :
    (funchookPageAlloc 0x1000 noMemoryEnv 0x401000).2 = .ok mapFailed ∧
      ¬ PageAllocSound 0x1000 noMemoryEnv 0x401000 := by
  have hresult : (funchookPageAlloc 0x1000 noMemoryEnv 0x401000).2 = .ok mapFailed := by decide
  refine ⟨hresult, ?_⟩
  intro hsound
  unfold PageAllocSound at hsound
  rw [hresult] at hsound
  exact hsound.1 rfl

end Funchook.Unix
