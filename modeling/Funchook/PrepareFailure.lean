import Funchook.EntrySlots
import Funchook.PageAllocUnix

/-!
# What a failing prepare leaves behind

A prepare commits an entry in its last lines, and every path that returns before leaves the handle
as it was, but for the error message. The one thing done before is the search for a page: a page
that is mapped and then rejected is unmapped again, by `get_page` or, on Unix, by
`funchook_page_alloc` itself, whose calls of `mmap` and `munmap` are followed here one by one.
-/

namespace Funchook

open ByteMemory

variable {w : ℕ} {P : Platform w}

/-- The prepare has changed nothing but the error message, and leaves no page mapped unless giving
one back has failed. -/
structure PrepareUnchanged (fh : FunchookT w) (s : World w) (targetFunc : Addr w)
    (answer : AllocAnswer w) (r : PrepareResult w) : Prop where
  targetFunc_eq : r.targetFunc = targetFunc
  handle : ∃ message, r.fh = { fh with errorMessage := message }
  bytes : ∀ a, s.mapped a = true → r.world.bytes a = s.bytes a
  mapped : answer.free = .ok → r.world.mapped = s.mapped

theorem failedPrepareWorld_mapped {s s' : World w} {answer : AllocAnswer w}
    (hfresh : answer.Fresh P s) (hfree : answer.free = .ok) (h : FailedPrepareWorld P s answer s') :
    s'.mapped = s.mapped := by
  cases h with
  | same => rfl
  | returned hp => exact unmapPage_mapPage_mapped (hfresh _ hp)
  | leaked _ hf =>
    rw [hfree] at hf
    cases hf

theorem prepare_unchanged {fh : FunchookT w} {s : World w} {targetFunc : Addr w}
    {params : FunchookParams w} {answer : AllocAnswer w} {r : PrepareResult w}
    (hfresh : answer.Fresh P s)
    (h : funchookPrepareInternal P fh s targetFunc params answer = some r)
    (hrv : r.rv ≠ errorSuccess) : PrepareUnchanged fh s targetFunc answer r := by
  rcases prepare_cases h with href | ⟨⟨p⟩⟩
  · refine ⟨href.targetFunc_eq, ⟨r.fh.errorMessage, ?_⟩, fun a ha => ?_, fun hfree => ?_⟩
    · rw [← href.installed, ← href.pageList]
    · exact (failedPrepareWorld_bytes hfresh href.world ha).1
    · exact failedPrepareWorld_mapped hfresh hfree href.world
  · rw [p.result] at hrv
    exact absurd rfl hrv

/-! ## The pages that a prepare maps and unmaps on Unix -/

namespace Unix

/-- The process after calls of `mmap` and `munmap` for pages of the size. -/
def applyPageCalls (size : ℕ) : List PageCall → World 64 → World 64
  | [], s => s
  | .mmap _ page :: calls, s =>
    applyPageCalls size calls (if page = mapFailed then s else s.mapPage page size)
  | .munmap page :: calls, s => applyPageCalls size calls (s.unmapPage page size)

/-- A page that `mmap` returns is mapped where nothing is mapped. -/
def FreshCalls (size : ℕ) : List PageCall → World 64 → Prop
  | [], _ => True
  | .mmap _ page :: calls, s => (page ≠ mapFailed → s.Fresh page size) ∧
      FreshCalls size calls (if page = mapFailed then s else s.mapPage page size)
  | .munmap page :: calls, s => FreshCalls size calls (s.unmapPage page size)

/-- `page_size` as a `size_t`. -/
def osPageSize (P : Platform 64) : Addr 64 := BitVec.ofNat 64 P.pageSize

/-- The search for a page near the function that is prepared. -/
def pageSearch (P : Platform 64) (s : World 64) (targetFunc : Addr 64) (env : PageAllocEnv) :
    List PageCall × Except Failure (Addr 64) :=
  funchookPageAlloc (osPageSize P) env (P.funchookResolveFunc s.bytes targetFunc)

/-- A prepare on Unix, where `munmap` succeeds: the page comes from `funchook_page_alloc`. -/
def funchookPrepareUnix (P : Platform 64) (fh : FunchookT 64) (s : World 64) (targetFunc : Addr 64)
    (params : FunchookParams 64) (env : PageAllocEnv) : Option (PrepareResult 64) :=
  funchookPrepareInternal P fh s targetFunc params ⟨(pageSearch P s targetFunc env).2, .ok⟩

/-- The calls of `mmap` and `munmap` that a prepare makes. -/
def prepareCalls (P : Platform 64) (fh : FunchookT 64) (s : World 64) (targetFunc : Addr 64)
    (env : PageAllocEnv) : List PageCall :=
  let func := P.funchookResolveFunc s.bytes targetFunc
  if fh.installed then []
  else
    match P.funchookMakeTrampoline s.bytes func with
    | .error _ => []
    | .ok (disp, _) =>
      match fh.pageList.findIdx? (reusable P func disp) with
      | some _ => []
      | none =>
        match pageSearch P s targetFunc env with
        | (calls, .error _) => calls
        | (calls, .ok page) =>
          if P.funchookPageAvail (P.slotAddr page 0) func disp then calls
          else calls ++ [.munmap page]

theorem applyPageCalls_append (size : ℕ) (calls calls' : List PageCall) (s : World 64) :
    applyPageCalls size (calls ++ calls') s =
      applyPageCalls size calls' (applyPageCalls size calls s) := by
  induction calls generalizing s with
  | nil => rfl
  | cons call calls ih => cases call <;> exact ih _

/-- What the calls leave mapped, and that they leave the mapped bytes alone. -/
structure CallsLeave (s s' : World 64) (mapped : Addr 64 → Bool) : Prop where
  bytes : ∀ a, s.mapped a = true → s'.bytes a = s.bytes a
  mapped_eq : s'.mapped = mapped

/-- After an error nothing new is mapped; after a success the page returned is. -/
def LeftBy (size : ℕ) (s s' : World 64) : Except Failure (Addr 64) → Prop
  | .error _ => CallsLeave s s' s.mapped
  | .ok page => page ≠ mapFailed → s.Fresh page size ∧
      CallsLeave s s' (s.mapPage page size).mapped

theorem AllocLog.leftBy {pageSize func : Addr 64} {answers : List (Addr 64)} {calls : List PageCall}
    {result : Except Failure (Addr 64)} (h : AllocLog pageSize func answers calls result)
    {size : ℕ} {s : World 64} (hfresh : FreshCalls size calls s) :
    LeftBy size s (applyPageCalls size calls s) result := by
  induction h generalizing s with
  | exhausted f => exact ⟨fun _ _ => rfl, rfl⟩
  | accepted hint page answers hnear =>
    intro hmapped
    have hnew := hfresh.1 hmapped
    rw [applyPageCalls, applyPageCalls, if_neg hmapped]
    exact ⟨hnew, fun a ha => mapPage_bytes_of_mapped hnew ha, rfl⟩
  | failed hint answers f hfar =>
    rw [applyPageCalls, applyPageCalls, if_pos rfl]
    exact ⟨fun _ _ => rfl, rfl⟩
  | rejected hint page hmapped hfar hrest ih =>
    have hnew := hfresh.1 hmapped
    have hagain := hfresh.2
    rw [if_neg hmapped] at hagain
    have hsame : ((s.mapPage page size).unmapPage page size).mapped = s.mapped :=
      unmapPage_mapPage_mapped hnew
    have hbytes : ∀ a, s.mapped a = true →
        ((s.mapPage page size).unmapPage page size).bytes a = s.bytes a :=
      fun a ha => mapPage_bytes_of_mapped hnew ha
    have hleft := ih hagain
    rw [applyPageCalls, applyPageCalls, if_neg hmapped]
    rename_i result
    cases result with
    | error f =>
      refine ⟨fun a ha => ?_, hleft.mapped_eq.trans hsame⟩
      exact (hleft.bytes a (by rw [hsame]; exact ha)).trans (hbytes a ha)
    | ok p =>
      intro hp
      obtain ⟨hfreshp, hcalls⟩ := hleft hp
      refine ⟨fun a ha => ?_, fun a ha => ?_, hcalls.mapped_eq.trans ?_⟩
      · rw [← hsame]
        exact hfreshp a ha
      · exact (hcalls.bytes a (by rw [hsame]; exact ha)).trans (hbytes a ha)
      · funext a
        show (decide _ || ((s.mapPage page size).unmapPage page size).mapped a) = _
        rw [hsame]
        rfl

/-- The page that a successful search returns is a mapped one. -/
def SearchMaps (P : Platform 64) (s : World 64) (targetFunc : Addr 64) (env : PageAllocEnv) :
    Prop :=
  ∀ page, (pageSearch P s targetFunc env).2 = .ok page → page ≠ mapFailed

theorem pageSearch_fresh {s : World 64} {P : Platform 64} {targetFunc : Addr 64}
    {env : PageAllocEnv}
    (hmaps : SearchMaps P s targetFunc env)
    (hfresh : FreshCalls P.pageSize (pageSearch P s targetFunc env).1 s) :
    AllocAnswer.Fresh P ⟨(pageSearch P s targetFunc env).2, .ok⟩ s := by
  intro page hpage
  have hleft := (@funchookPageAlloc_log (osPageSize P) env
    (P.funchookResolveFunc s.bytes targetFunc)).leftBy hfresh
  change LeftBy _ s _ (pageSearch P s targetFunc env).2 at hleft
  change (pageSearch P s targetFunc env).2 = .ok page at hpage
  rw [hpage] at hleft
  exact (hleft (hmaps page hpage)).1

/-- A page that is given back is unmapped, and nothing else changes. -/
theorem CallsLeave.munmap {size : ℕ} {calls : List PageCall} {s s' : World 64} {page : Addr 64}
    (h : CallsLeave s (applyPageCalls size calls s) s'.mapped) :
    CallsLeave s (applyPageCalls size (calls ++ [.munmap page]) s)
      (s'.unmapPage page size).mapped := by
  rw [applyPageCalls_append]
  refine ⟨h.bytes, ?_⟩
  funext a
  show (!decide _ && (applyPageCalls size calls s).mapped a) = _
  rw [h.mapped_eq]
  rfl

/-- **The calls and the process.** The calls of a prepare leave mapped what the model maps, and do
not touch what is mapped before. -/
theorem prepareCalls_leave {P : Platform 64} {fh : FunchookT 64} {s : World 64}
    {targetFunc : Addr 64} {params : FunchookParams 64} {env : PageAllocEnv} {r : PrepareResult 64}
    (hmaps : SearchMaps P s targetFunc env)
    (hfresh : FreshCalls P.pageSize (pageSearch P s targetFunc env).1 s)
    (h : funchookPrepareUnix P fh s targetFunc params env = some r) :
    CallsLeave s (applyPageCalls P.pageSize (prepareCalls P fh s targetFunc env) s)
      r.world.mapped := by
  have hleft := (@funchookPageAlloc_log (osPageSize P) env
    (P.funchookResolveFunc s.bytes targetFunc)).leftBy hfresh
  change LeftBy _ s (applyPageCalls _ (pageSearch P s targetFunc env).1 s)
    (pageSearch P s targetFunc env).2 at hleft
  have hnone : CallsLeave s (applyPageCalls P.pageSize [] s) s.mapped := ⟨fun _ _ => rfl, rfl⟩
  unfold funchookPrepareUnix funchookPrepareInternal at h
  unfold prepareCalls
  dsimp only at h ⊢
  cases hinst : fh.installed with
  | true =>
    simp only [hinst, if_true] at h ⊢
    cases h
    exact hnone
  | false =>
    simp only [hinst, Bool.false_eq_true, if_false] at h ⊢
    cases hmake : P.funchookMakeTrampoline s.bytes (P.funchookResolveFunc s.bytes targetFunc) with
    | error f =>
      rw [hmake] at h
      cases h
      exact hnone
    | ok built =>
      obtain ⟨disp, trampoline⟩ := built
      rw [hmake] at h
      dsimp only at h ⊢
      unfold getPage at h
      cases hfind : fh.pageList.findIdx?
          (reusable P (P.funchookResolveFunc s.bytes targetFunc) disp) with
      | some idx =>
        rw [hfind] at h
        dsimp only at h ⊢
        split at h
        · cases h
        · split at h
          · cases h
            exact hnone
          · cases h
      | none =>
        rw [hfind] at h
        revert hleft hmaps h
        unfold SearchMaps
        generalize pageSearch P s targetFunc env = search
        obtain ⟨calls, result⟩ := search
        dsimp only
        intro hmaps hleft h
        cases result with
        | error f =>
          cases h
          exact hleft
        | ok page =>
          obtain ⟨hpage, hcalls⟩ := hleft (hmaps page rfl)
          dsimp only at h ⊢
          cases havail : P.funchookPageAvail (P.slotAddr page 0)
              (P.funchookResolveFunc s.bytes targetFunc) disp with
          | true =>
            simp only [havail, if_true] at h ⊢
            cases h
            exact hcalls
          | false =>
            simp only [havail, Bool.false_eq_true, if_false] at h ⊢
            cases h
            exact hcalls.munmap

end Unix

/-- **A failed prepare changes nothing.** Whatever the reason is, `*target_func`, the flag, the page
list with its entries and the mapped bytes are as before; on Unix the calls of `mmap` and `munmap`
made on the way leave the mapped pages as they were. -/
theorem failed_prepare_changes_nothing :
    (∀ (w : ℕ) (P : Platform w) (fh : FunchookT w) (s : World w) (targetFunc : Addr w)
      (params : FunchookParams w) (answer : AllocAnswer w) (r : PrepareResult w),
        answer.Fresh P s → funchookPrepareInternal P fh s targetFunc params answer = some r →
          r.rv ≠ errorSuccess → PrepareUnchanged fh s targetFunc answer r) ∧
    ∀ (P : Platform 64) (fh : FunchookT 64) (s : World 64) (targetFunc : Addr 64)
      (params : FunchookParams 64) (env : Unix.PageAllocEnv) (r : PrepareResult 64),
        Unix.SearchMaps P s targetFunc env →
          Unix.FreshCalls P.pageSize (Unix.pageSearch P s targetFunc env).1 s →
            Unix.funchookPrepareUnix P fh s targetFunc params env = some r →
              r.rv ≠ errorSuccess →
                Unix.CallsLeave s (Unix.applyPageCalls P.pageSize
                  (Unix.prepareCalls P fh s targetFunc env) s) s.mapped := by
  refine ⟨fun w P fh s targetFunc params answer r hfresh h hrv => prepare_unchanged hfresh h hrv,
    ?_⟩
  intro P fh s targetFunc params env r hmaps hfresh h hrv
  have hunchanged := prepare_unchanged (Unix.pageSearch_fresh hmaps hfresh) h hrv
  rw [← hunchanged.mapped rfl]
  exact Unix.prepareCalls_leave hmaps hfresh h

/-- A page too far from the sample function. -/
def farPage : Addr 64 := 0x7f0000000000

theorem farPage_fresh : X86.sampleWorld.Fresh farPage 4096 := by
  intro a ha
  have hlt : (a - 0x7f0000000000).toNat < 4096 := ha
  refine decide_eq_false fun h => ?_
  have hlt' : (a - 0x400000).toNat < 0x4000 := h
  bv_omega

/-- A prepare that rejects its page. -/
def sampleRejected : PrepareResult 64 :=
  (funchookPrepareInternal samplePlatform funchookCreate X86.sampleWorld 0x401000
    ⟨0x402000, 0, 0, 0⟩ ⟨.ok farPage, .ok⟩).get (by decide +kernel)

/-- `mmap` ignores the only hint of the first attempt, and there is no second one. -/
def farEnv : Unix.PageAllocEnv where
  maps := fun
    | 0 => .ok [⟨0, 0x402000⟩]
    | _ + 1 => .error ⟨errorMemoryFunction, "fopen"⟩
  mmapBefore := fun _ => ⟨farPage, ""⟩
  mmapAfter := fun _ => ⟨farPage, ""⟩

def sampleNoPage : PrepareResult 64 :=
  (Unix.funchookPrepareUnix samplePlatform funchookCreate X86.sampleWorld 0x401000
    ⟨0x402000, 0, 0, 0⟩ farEnv).get (by decide +kernel)

theorem failed_prepare_changes_nothing_sample :
    PrepareUnchanged funchookCreate X86.sampleWorld 0x401000 ⟨.ok farPage, .ok⟩ sampleRejected ∧
      Unix.CallsLeave X86.sampleWorld (Unix.applyPageCalls 4096
        [.mmap 0x402000 farPage, .munmap farPage] X86.sampleWorld) X86.sampleWorld.mapped := by
  have hsearch : Unix.pageSearch samplePlatform X86.sampleWorld 0x401000 farEnv =
      ([.mmap 0x402000 farPage, .munmap farPage], .error ⟨errorMemoryFunction, "fopen"⟩) := by
    rfl
  have hcalls : Unix.prepareCalls samplePlatform funchookCreate X86.sampleWorld 0x401000 farEnv =
      [.mmap 0x402000 farPage, .munmap farPage] := by decide +kernel
  refine ⟨failed_prepare_changes_nothing.1 64 samplePlatform funchookCreate X86.sampleWorld 0x401000
    ⟨0x402000, 0, 0, 0⟩ ⟨.ok farPage, .ok⟩ sampleRejected ?_ (Option.some_get _).symm
    (by decide +kernel), ?_⟩
  · intro p hp
    cases hp
    exact farPage_fresh
  · rw [← hcalls]
    refine failed_prepare_changes_nothing.2 samplePlatform funchookCreate X86.sampleWorld 0x401000
      ⟨0x402000, 0, 0, 0⟩ farEnv sampleNoPage ?_ ?_ (Option.some_get _).symm (by decide +kernel)
    · intro page hpage
      rw [hsearch] at hpage
      cases hpage
    · rw [hsearch]
      exact ⟨fun _ => farPage_fresh, trivial⟩

end Funchook
