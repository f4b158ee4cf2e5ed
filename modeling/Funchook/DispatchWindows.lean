import Mathlib.Logic.Function.Basic
import Funchook.DispatchArm64
import Funchook.EntrySlots
import Funchook.ExpansionArm64
import Funchook.OsWindows

/-!
# From a patched function to its transit code on Windows for AArch64

On this target `funchook_page_avail` is the constant 1, so a prepare takes whatever page comes
first: an unused page of a unit that an earlier prepare reserved near another function, or a page
of a unit above the function, however far away. The patch leads to the transit code when that page
is in range of `ADRP`, and to another address when it is not.
-/

namespace Funchook.Windows

open ByteMemory Runs
open Arm64 (Build platform inAdrpRange PatchLoaded)

/-! ## Prepare -/

/-- The function and displacements for which a prepare asks for a new page. -/
def newPageArgs (P : Platform 64) (fh : FunchookT 64) (s : World 64) (targetFunc : Addr 64) :
    Option (Addr 64 × P.IpDisplacement) :=
  let func := P.funchookResolveFunc s.bytes targetFunc
  if fh.installed then none
  else
    match P.funchookMakeTrampoline s.bytes func with
    | .error _ => none
    | .ok (disp, _) =>
      match fh.pageList.findIdx? (reusable P func disp) with
      | some _ => none
      | none => some (func, disp)

/-- The answer for a prepare that does not ask for a page. -/
def notAsked : AllocAnswer 64 := ⟨.error ⟨errorInternalError, ""⟩, .ok⟩

variable (b : Build) (unit : AllocationUnit b.pageSize)

/-- A prepare with the list of units; a page it gets from `funchook_page_alloc` is never given
back, since `funchook_page_avail` holds of every page. -/
def funchookPrepareWindows (fh : FunchookT 64) (s : World 64) (units : List (PageInfo unit))
    (targetFunc : Addr 64) (params : FunchookParams 64) (env : PageAllocEnv unit) (rounds : ℕ) :
    Option (PrepareResult 64 × List (PageInfo unit)) :=
  let P := platform b
  match newPageArgs P fh s targetFunc with
  | none => (funchookPrepareInternal P fh s targetFunc params notAsked).map fun r => (r, units)
  | some (func, disp) =>
    match funchookPageAlloc (fun page => P.funchookPageAvail (P.slotAddr page 0) func disp) env
      rounds units func with
    | none => none
    | some (units, result) =>
      (funchookPrepareInternal P fh s targetFunc params ⟨result, .ok⟩).map fun r => (r, units)

/-- The units of the process and its handles, by any names for them. -/
structure WindowsState where
  units : List (PageInfo unit)
  handles : ℕ → Option (FunchookT 64)

/-- `funchook_create`, and a prepare on the handle `i` that finds the process in any state. -/
inductive WindowsCall where
  | create (i : ℕ)
  | prepare (i : ℕ) (s : World 64) (targetFunc : Addr 64) (params : FunchookParams 64)
      (env : PageAllocEnv unit) (rounds : ℕ)

variable {unit}

/-- The process when no handle has been made; earlier ones may have left units behind. -/
def WindowsState.start (units : List (PageInfo unit)) : WindowsState b unit :=
  ⟨units, fun _ => none⟩

variable {b}

def WindowsState.step (st : WindowsState b unit) : WindowsCall b unit → Option (WindowsState b unit)
  | .create i =>
    match st.handles i with
    | none => some ⟨st.units, Function.update st.handles i (some funchookCreate)⟩
    | some _ => none
  | .prepare i s targetFunc params env rounds => do
    let fh ← st.handles i
    let (r, units) ← funchookPrepareWindows b unit fh s st.units targetFunc params env rounds
    return ⟨units, Function.update st.handles i (some r.fh)⟩

def WindowsStep (st : WindowsState b unit) (c : WindowsCall b unit) (st' : WindowsState b unit) :
    Prop :=
  st.step c = some st'

/-- An entry of some handle, with its slot. -/
def WindowsState.Entry (st : WindowsState b unit) (slot : Addr 64) (e : FunchookEntry 64) : Prop :=
  ∃ i fh, st.handles i = some fh ∧ EntryAt (platform b) fh slot e

/-- The patch of the entry, executed at its target, leads to the transit code, which stands at the
start of its slot. -/
def PatchReaches (slot : Addr 64) (e : FunchookEntry 64) : Prop :=
  ∀ s : A64.State, PatchLoaded s.mem e → s.pc = e.targetFunc →
    A64.run 2 s = some ((s.writeX 9 slot).withPc slot)

/-- The first unused page of the list is in range of `ADRP` from the function; if no page is
unused, so is the first page of the unit that the system reserves for the first region with room. -/
def PageInRange (units : List (PageInfo unit)) (env : PageAllocEnv unit) (func : Addr 64) : Prop :=
  (∀ page, (unusedPages (fun _ => true) units).head? = some page → inAdrpRange func page = true) ∧
    (unusedPages (fun _ => true) units = [] → ∀ hint addr, FirstRoom env func hint →
      env.reserve hint = .ok addr → inAdrpRange func ((PageInfo.new addr).pageAddr 0) = true)

/-- A prepare that asks for a page finds one in range. -/
def PrepareInRange (st : WindowsState b unit) (c : WindowsCall b unit) : Prop :=
  ∀ i s targetFunc params env rounds fh func disp,
    c = .prepare i s targetFunc params env rounds → st.handles i = some fh →
      newPageArgs (platform b) fh s targetFunc = some (func, disp) → PageInRange st.units env func

/-! ## The patch of a new entry -/

/-- There is a state about to execute the patch of an entry. -/
theorem exists_patchLoaded {e : FunchookEntry 64}
    (hlen : e.newCode.length = 4 * Arm64.maxPatchCodeSize) :
    ∃ s : A64.State, PatchLoaded s.mem e ∧ s.pc = e.targetFunc := by
  refine ⟨⟨fun _ => 0, 0, fun _ => 0, false, false, false, false,
    write (fun _ => 0) e.targetFunc e.newCode, e.targetFunc, []⟩, ?_, rfl⟩
  show readBytes (write (fun _ => 0) e.targetFunc e.newCode) e.targetFunc _ = e.newCode
  rw [← hlen]
  exact readBytes_write _ _ (by rw [hlen]; decide)

theorem patchReaches_iff {slot : Addr 64} (halign : slot.toNat % 4096 = 0) {hookCallerAsm : Addr 64}
    {e : FunchookEntry 64} (hlen : e.newCode.length = 4 * Arm64.maxPatchCodeSize) :
    PatchReaches slot (Arm64.funchookFixCode hookCallerAsm slot e) ↔
      inAdrpRange e.targetFunc slot = true := by
  constructor
  · intro hreach
    obtain ⟨s, hload, hpc⟩ :=
      @exists_patchLoaded (Arm64.funchookFixCode hookCallerAsm slot e)
        ((overwrite_length ..).trans hlen)
    have hrun := (Arm64.run_patch hlen hload hpc).2
    rw [hreach s hload hpc] at hrun
    exact (Arm64.adrpDest_eq_iff halign).mp (congrArg A64.State.pc (Option.some.inj hrun)).symm
  · intro hrange s hload hpc
    exact (Arm64.patch_dispatches hlen halign hrange hload hpc).2

/-- What a prepare does to a handle whose pages are all in use: nothing to its entries, or it puts
one into the page that `funchook_page_alloc` returns. -/
inductive PreparedWindows (fh : FunchookT 64) (s : World 64) (units : List (PageInfo unit))
    (targetFunc : Addr 64) (env : PageAllocEnv unit) (rounds : ℕ) (fh' : FunchookT 64) : Prop where
  | refused (hpages : fh'.pageList = fh.pageList)
  | filled {func page : Addr 64} {units' : List (PageInfo unit)} {e : FunchookEntry 64}
      {disp : (platform b).IpDisplacement}
      (hargs : newPageArgs (platform b) fh s targetFunc = some (func, disp))
      (halloc : funchookPageAlloc (fun _ => true) env rounds units func = some (units', .ok page))
      (hpages : fh'.pageList = ⟨page, [Arm64.funchookFixCode b.hookCallerAsm page e], .readWrite⟩ ::
        fh.pageList)
      (htarget : e.targetFunc = func) (hlen : e.newCode.length = 4 * Arm64.maxPatchCodeSize) :
      PreparedWindows fh s units targetFunc env rounds fh'

theorem slotAddr_zero (page : Addr 64) : (platform b).slotAddr page 0 = page := by
  show page + BitVec.ofNat 64 (0 + 0 * _) = page
  rw [Nat.zero_mul]
  exact BitVec.add_zero page

/-- A page holds one entry, so a prepare that fills one does so in a new page. -/
theorem prepared_newPage {fh : FunchookT 64} (hused : ∀ page ∈ fh.pageList, 1 ≤ page.used)
    {s : World 64} {targetFunc : Addr 64} {params : FunchookParams 64} {answer : AllocAnswer 64}
    {r : PrepareResult 64} (p : Prepared (platform b) fh s targetFunc params answer r) :
    ∃ page e, answer.alloc = .ok page ∧
      r.fh.pageList = ⟨page, [Arm64.funchookFixCode b.hookCallerAsm page e], .readWrite⟩ ::
        fh.pageList ∧
      e.targetFunc = b.resolveFunc s.bytes targetFunc ∧
      e.newCode.length = 4 * Arm64.maxPatchCodeSize := by
  obtain ⟨disp, trampoline, pages, idx, page, world, func, entry, -, hresolved, -, hfound, -,
    hentry, hresult⟩ := p
  cases hfound with
  | reused hget hlt =>
    have hone := hused page (List.mem_of_getElem? hget)
    exact absurd hlt (Nat.not_lt.mpr hone)
  | @fresh page halloc =>
    refine ⟨page, fillEntry (platform b) (s.mapPage page (platform b).pageSize) targetFunc func
      params trampoline, halloc, ?_, hresolved, List.length_replicate⟩
    rw [hresult, hentry]
    show [⟨page, [] ++ [Arm64.funchookFixCode b.hookCallerAsm ((platform b).slotAddr page 0) _],
      .readWrite⟩] ++ fh.pageList = _
    rw [slotAddr_zero]
    rfl

theorem newPageArgs_func {fh : FunchookT 64} {s : World 64} {targetFunc func : Addr 64}
    {disp : (platform b).IpDisplacement}
    (h : newPageArgs (platform b) fh s targetFunc = some (func, disp)) :
    func = b.resolveFunc s.bytes targetFunc := by
  unfold newPageArgs at h
  dsimp only at h
  split at h
  · cases h
  · split at h
    · cases h
    · split at h
      · cases h
      · exact (congrArg Prod.fst (Option.some.inj h)).symm

/-- **Prepare on Windows.** -/
theorem prepareWindows_cases {fh : FunchookT 64} (hused : ∀ page ∈ fh.pageList, 1 ≤ page.used)
    {s : World 64} {units units' : List (PageInfo unit)} {targetFunc : Addr 64}
    {params : FunchookParams 64} {env : PageAllocEnv unit} {rounds : ℕ} {r : PrepareResult 64}
    (h : funchookPrepareWindows b unit fh s units targetFunc params env rounds = some (r, units')) :
    PreparedWindows fh s units targetFunc env rounds r.fh := by
  unfold funchookPrepareWindows at h
  dsimp only at h
  cases hargs : newPageArgs (platform b) fh s targetFunc with
  | none =>
    rw [hargs] at h
    obtain ⟨q, hq, heq⟩ := Option.map_eq_some_iff.mp h
    cases heq
    rcases prepare_cases hq with href | ⟨⟨p⟩⟩
    · exact .refused href.pageList
    · obtain ⟨page, -, halloc, -⟩ := prepared_newPage hused p
      cases halloc
  | some args =>
    obtain ⟨func, disp⟩ := args
    rw [hargs] at h
    dsimp only at h
    split at h
    · cases h
    · rename_i units₁ result halloc
      obtain ⟨q, hq, heq⟩ := Option.map_eq_some_iff.mp h
      cases heq
      rcases prepare_cases hq with href | ⟨⟨p⟩⟩
      · exact .refused href.pageList
      · obtain ⟨page, e, rfl, hpages, htarget, hlen⟩ := prepared_newPage hused p
        exact .filled hargs halloc hpages (htarget.trans (newPageArgs_func hargs).symm) hlen

/-- The page that `funchook_page_alloc` returns is in range exactly when the list of units and the
free memory are as `PageInRange` says. -/
theorem pageInRange_iff {env : PageAllocEnv unit} {rounds : ℕ} {units units' : List (PageInfo unit)}
    {func page : Addr 64}
    (h : funchookPageAlloc (fun _ => true) env rounds units func = some (units', .ok page)) :
    PageInRange units env func ↔ inAdrpRange func page = true := by
  rcases funchookPageAlloc_ok h with hhead | ⟨hnone, hint, addr, hroom, hreserve, rfl⟩
  · constructor
    · intro hrange
      exact hrange.1 page hhead
    · intro hrange
      refine ⟨fun page' hpage' => ?_, fun hnone => ?_⟩
      · cases hhead.symm.trans hpage'
        exact hrange
      · rw [hnone] at hhead
        cases hhead
  · constructor
    · intro hrange
      exact hrange.2 hnone hint addr hroom hreserve
    · intro hrange
      refine ⟨fun page' hpage' => ?_, fun _ hint' addr' hroom' hreserve' => ?_⟩
      · rw [hnone] at hpage'
        cases hpage'
      · cases hroom.unique hroom'
        cases hreserve.symm.trans hreserve'
        exact hrange

/-! ## Runs -/

/-- Every page of every handle is in use. -/
def PagesUsed (st : WindowsState b unit) : Prop :=
  ∀ i fh, st.handles i = some fh → ∀ page ∈ fh.pageList, 1 ≤ page.used

/-- Every patch leads to its transit code. -/
def PatchesReach (st : WindowsState b unit) : Prop :=
  ∀ slot e, st.Entry slot e → PatchReaches slot e

theorem pagesUsed_start (units : List (PageInfo unit)) : PagesUsed (.start b units) :=
  fun _ _ h => by cases h

/-- What a call does to the handles. -/
theorem windowsStep_cases {st st' : WindowsState b unit} (hused : PagesUsed st)
    {c : WindowsCall b unit} (h : WindowsStep st c st') :
    (∃ i, st'.handles = Function.update st.handles i (some funchookCreate)) ∨
      ∃ i s targetFunc params env rounds fh fh',
        c = .prepare i s targetFunc params env rounds ∧ st.handles i = some fh ∧
          st'.handles = Function.update st.handles i (some fh') ∧
          PreparedWindows fh s st.units targetFunc env rounds fh' := by
  cases c with
  | create i =>
    rw [WindowsStep, WindowsState.step] at h
    split at h
    · exact Or.inl ⟨i, by rw [← Option.some.inj h]⟩
    · cases h
  | prepare i s targetFunc params env rounds =>
    obtain ⟨fh, hfh, h⟩ := Option.bind_eq_some_iff.mp h
    obtain ⟨⟨r, units'⟩, hprepare, h⟩ := Option.bind_eq_some_iff.mp h
    exact Or.inr ⟨i, s, targetFunc, params, env, rounds, fh, r.fh, rfl, hfh,
      by rw [← Option.some.inj h], prepareWindows_cases (hused i fh hfh) hprepare⟩

theorem update_cases {handles : ℕ → Option (FunchookT 64)} {i j : ℕ} {fh' fh : FunchookT 64}
    (h : Function.update handles i (some fh') j = some fh) : fh = fh' ∨ handles j = some fh := by
  by_cases hj : j = i
  · rw [hj, Function.update_self] at h
    exact Or.inl (Option.some.inj h).symm
  · rw [Function.update_of_ne hj] at h
    exact Or.inr h

/-- A page that a prepare adds holds the new entry. -/
theorem entryAt_newPage {fh fh' : FunchookT 64} {page : Addr 64} {e : FunchookEntry 64}
    (hpages : fh'.pageList = ⟨page, [e], .readWrite⟩ :: fh.pageList) {slot : Addr 64}
    {e' : FunchookEntry 64} (h : EntryAt (platform b) fh' slot e') :
    EntryAt (platform b) fh slot e' ∨ slot = page ∧ e' = e := by
  obtain ⟨q, hq, idx, hidx, hslot⟩ := h
  rw [hpages] at hq
  rcases List.mem_cons.mp hq with rfl | hq
  · cases idx with
    | zero => exact Or.inr ⟨hslot.trans (slotAddr_zero page), (Option.some.inj hidx).symm⟩
    | succ idx => cases hidx
  · exact Or.inl ⟨q, hq, idx, hidx, hslot⟩

theorem pagesUsed_step {st st' : WindowsState b unit} {c : WindowsCall b unit}
    (hused : PagesUsed st) (h : WindowsStep st c st') : PagesUsed st' := by
  intro j fh hj page hpage
  rcases windowsStep_cases hused h with
    ⟨i, hhandles⟩ | ⟨i, s, targetFunc, params, env, rounds, fh₀, fh', -, hfh₀, hhandles, hprepared⟩
  · rw [hhandles] at hj
    rcases update_cases hj with rfl | hj
    · cases hpage
    · exact hused j fh hj page hpage
  · rw [hhandles] at hj
    rcases update_cases hj with rfl | hj
    · cases hprepared with
      | refused hpages => exact hused i fh₀ hfh₀ page (hpages ▸ hpage)
      | filled _ _ hpages =>
        rw [hpages] at hpage
        rcases List.mem_cons.mp hpage with rfl | hpage
        · exact Nat.le_refl 1
        · exact hused i fh₀ hfh₀ page hpage
    · exact hused j fh hj page hpage

/-- **Step.** An entry after a call was there before, or a prepare has put it into a page; then its
patch leads to its transit code exactly when the prepare found a page in range. -/
theorem entry_step {st st' : WindowsState b unit} {c : WindowsCall b unit} (hused : PagesUsed st)
    (h : WindowsStep st c st') {slot : Addr 64} {e : FunchookEntry 64} (he : st'.Entry slot e) :
    st.Entry slot e ∨
      ∃ i s targetFunc params env rounds fh func disp,
        c = .prepare i s targetFunc params env rounds ∧ st.handles i = some fh ∧
          newPageArgs (platform b) fh s targetFunc = some (func, disp) ∧
          (PatchReaches slot e ↔ PageInRange st.units env func) := by
  obtain ⟨j, fh, hj, hentry⟩ := he
  rcases windowsStep_cases hused h with
    ⟨i, hhandles⟩ | ⟨i, s, targetFunc, params, env, rounds, fh₀, fh', hc, hfh₀, hhandles, hprepared⟩
  · rw [hhandles] at hj
    rcases update_cases hj with rfl | hj
    · obtain ⟨page, hpage, -⟩ := hentry
      cases hpage
    · exact Or.inl ⟨j, fh, hj, hentry⟩
  · rw [hhandles] at hj
    rcases update_cases hj with rfl | hj
    · cases hprepared with
      | refused hpages =>
        obtain ⟨page, hpage, hslot⟩ := hentry
        exact Or.inl ⟨i, fh₀, hfh₀, page, hpages ▸ hpage, hslot⟩
      | @filled func page units' e₀ disp hargs halloc hpages htarget hlen =>
        rcases entryAt_newPage hpages hentry with hold | ⟨rfl, rfl⟩
        · exact Or.inl ⟨i, fh₀, hfh₀, hold⟩
        · refine Or.inr
            ⟨i, s, targetFunc, params, env, rounds, fh₀, func, disp, hc, hfh₀, hargs, ?_⟩
          rw [patchReaches_iff (funchookPageAlloc_aligned halloc) hlen, htarget,
            pageInRange_iff halloc]
    · exact Or.inl ⟨j, fh, hj, hentry⟩

theorem pagesUsed_run {units : List (PageInfo unit)} {st : WindowsState b unit}
    {cond : WindowsState b unit → WindowsCall b unit → Prop}
    (hrun : Run WindowsStep cond (.start b units) st) : PagesUsed st :=
  hrun.invariant (pagesUsed_start units) fun _ _ _ hinv _ hstep => pagesUsed_step hinv hstep

theorem patchesReach_run {units : List (PageInfo unit)} {st : WindowsState b unit}
    (hrun : Run WindowsStep PrepareInRange (.start b units) st) : PatchesReach st := by
  induction hrun with
  | start =>
    intro slot e he
    obtain ⟨i, fh, hfh, -⟩ := he
    cases hfh
  | call hrun c hcond hstep ih =>
    intro slot e he
    rcases entry_step (pagesUsed_run hrun) hstep he with
      hold | ⟨i, s, targetFunc, params, env, rounds, fh, func, disp, hc, hfh, hargs, hiff⟩
    · exact ih slot e hold
    · exact hiff.mpr (hcond i s targetFunc params env rounds fh func disp hc hfh hargs)

/-- **Patches on Windows.** In every state of every run whose prepares find a page in range, every
patch leads to its own transit code; and in every run, whatever its prepares find, the patch of an
entry that a prepare adds does so exactly when that prepare finds a page in range. -/
theorem patch_reaches_transit (b : Build) (unit : AllocationUnit b.pageSize) :
    (∀ (units : List (PageInfo unit)) (st : WindowsState b unit),
      Run WindowsStep PrepareInRange (.start b units) st → PatchesReach st) ∧
    ∀ (units : List (PageInfo unit)) (st st' : WindowsState b unit)
      i s targetFunc params env rounds,
      Run WindowsStep (fun _ _ => True) (.start b units) st →
        WindowsStep st (.prepare i s targetFunc params env rounds) st' →
          ∀ slot e, st'.Entry slot e → ¬ st.Entry slot e →
            (PatchReaches slot e ↔
              PageInRange st.units env (b.resolveFunc s.bytes targetFunc)) := by
  refine ⟨fun units st hrun => patchesReach_run hrun, ?_⟩
  intro units st st' i s targetFunc params env rounds hrun hstep slot e he hnew
  rcases entry_step (pagesUsed_run hrun) hstep he with
    hold | ⟨i', s', targetFunc', params', env', rounds', fh, func, disp, hc, -, hargs, hiff⟩
  · exact absurd hold hnew
  · cases hc
    rw [← newPageArgs_func hargs]
    exact hiff

/-! ## A sample process -/

/-- Pages of 4 KB in units of 64 KB. -/
def sampleBuild : Build where
  disasm := Arm64.sampleDisasm
  resolveFunc := fun _ func => func
  pageSize := (X86.sampleBuild .x86_64).pageSize
  hookCallerAsm := 0x300000

def sampleUnit : AllocationUnit sampleBuild.pageSize := ⟨16, by decide, by decide⟩

/-- Memory filled with `nop`. -/
def nopWorld : World 64 where
  bytes := fun a => [0x1f, 0x20, 0x03, 0xd5].getD (a.toNat % 4) 0
  mapped := fun _ => true

/-- Everything below `0x500000` is used, and so is the module with the far function; the rest up to
`0x7fffffff0000` is free. -/
def sampleEnv : PageAllocEnv sampleUnit where
  virtualQuery := fun a =>
    let base := roundDown a 0x1000
    if a.ult 0x500000 then .ok ⟨base, 0x500000 - base, false⟩
    else if a.ult 0x7ff600000000 then .ok ⟨base, 0x7ff600000000 - base, true⟩
    else if a.ult 0x7ff600100000 then .ok ⟨base, 0x7ff600100000 - base, false⟩
    else if a.ult 0x7fffffff0000 then .ok ⟨base, 0x7fffffff0000 - base, true⟩
    else .error ⟨87, "The parameter is incorrect."⟩
  reserve := fun hint => .ok ⟨BitVec.ofNat 64 (hint.toNat / 65536 * 65536), by
    have hhint := hint.isLt
    show (BitVec.ofNat 64 (hint.toNat / 65536 * 65536)).toNat % 2 ^ 16 = 0
    rw [BitVec.toNat_ofNat]
    omega⟩
  commitInfo := none
  commitPage := none

def nearCall : WindowsCall sampleBuild sampleUnit :=
  .prepare 0 nopWorld 0x401000 ⟨0x402000, 0, 0, 0⟩ sampleEnv 2

/-- A function far above the unit reserved for the first one. -/
def farCall : WindowsCall sampleBuild sampleUnit :=
  .prepare 0 nopWorld 0x7ff600001000 ⟨0x402000, 0, 0, 0⟩ sampleEnv 2

def createdState : WindowsState sampleBuild sampleUnit :=
  ((WindowsState.start sampleBuild []).step (.create 0)).get rfl

def nearState : WindowsState sampleBuild sampleUnit :=
  (createdState.step nearCall).get (by decide +kernel)

def farState : WindowsState sampleBuild sampleUnit :=
  (nearState.step farCall).get (by decide +kernel)

/-- The page added last to the handle 0, and the entry in it. -/
def lastPage (st : WindowsState sampleBuild sampleUnit) : Option (FunchookPage 64) :=
  (st.handles 0).bind fun fh => fh.pageList.head?

def lastEntry (st : WindowsState sampleBuild sampleUnit) : Option (FunchookEntry 64) :=
  (lastPage st).bind fun page => page.entries.head?

def nearEntry : FunchookEntry 64 := (lastEntry nearState).get (by decide +kernel)

def farEntry : FunchookEntry 64 := (lastEntry farState).get (by decide +kernel)

theorem entry_lastEntry {st : WindowsState sampleBuild sampleUnit} {addr : Addr 64}
    {e : FunchookEntry 64} (hpage : (lastPage st).map FunchookPage.addr = some addr)
    (he : lastEntry st = some e) : st.Entry addr e := by
  obtain ⟨page, hlast, rfl⟩ := Option.map_eq_some_iff.mp hpage
  obtain ⟨fh, hfh, hhead⟩ := Option.bind_eq_some_iff.mp hlast
  rw [lastEntry, hlast] at he
  refine ⟨0, fh, hfh, page, List.mem_of_head? hhead, 0, ?_, (slotAddr_zero page.addr).symm⟩
  rw [← List.head?_eq_getElem?]
  exact he

/-- Up from `0x401000`, the free region that begins at `0x500000` is the first with room. -/
theorem sampleEnv_firstRoom : FirstRoom sampleEnv 0x401000 0x500000 :=
  have hcode : sampleEnv.virtualQuery 0x401000 = .ok ⟨0x401000, 0xff000, false⟩ := rfl
  have hfree : sampleEnv.virtualQuery 0x500000 = .ok ⟨0x500000, 0x7ff5ffb00000, true⟩ := rfl
  .next hcode rfl (.here hfree (by decide +kernel))

theorem created_step : WindowsStep (.start sampleBuild []) (.create 0) createdState :=
  (Option.some_get _).symm

theorem near_step : WindowsStep createdState nearCall nearState := (Option.some_get _).symm

theorem far_step : WindowsStep nearState farCall farState := (Option.some_get _).symm

theorem patch_reaches_transit_sample :
    nearState.Entry 0x501000 nearEntry ∧ PatchReaches 0x501000 nearEntry := by
  have hentry : nearState.Entry 0x501000 nearEntry :=
    entry_lastEntry (by decide +kernel) (Option.some_get _).symm
  refine ⟨hentry, (patch_reaches_transit sampleBuild sampleUnit).1 [] nearState
    (.call (.call .start (.create 0) ?_ created_step) nearCall ?_ near_step) _ _ hentry⟩
  · intro i s targetFunc params env rounds fh func disp hc
    cases hc
  · intro i s targetFunc params env rounds fh func disp hc hfh hargs
    cases hc
    obtain rfl : func = 0x401000 := newPageArgs_func hargs
    refine ⟨(fun page hpage => by cases hpage), fun _ hint addr hroom hreserve => ?_⟩
    rw [← sampleEnv_firstRoom.unique hroom] at hreserve
    rw [← Except.ok.inj hreserve]
    decide +kernel

/-- The machine at the patched far function. -/
def farMachine : A64.State :=
  ⟨fun _ => 0, 0, fun _ => 0, false, false, false, false,
    write nopWorld.bytes 0x7ff600001000 farEntry.newCode, 0x7ff600001000, []⟩

/-- The page beside the first one is taken for a function 128 TB away, and its patch leads to an
address that is not the transit code. -/
theorem far_patch_misses :
    Run WindowsStep (fun _ _ => True) (.start sampleBuild []) farState ∧
      farState.Entry 0x502000 farEntry ∧ ¬ PatchReaches 0x502000 farEntry := by
  refine ⟨.call (.call (.call .start (.create 0) trivial created_step) nearCall trivial near_step)
    farCall trivial far_step, entry_lastEntry (by decide +kernel) (Option.some_get _).symm, ?_⟩
  intro hreach
  have hload : readBytes farMachine.mem farEntry.targetFunc 8 = farEntry.newCode := by
    decide +kernel
  have hrun := congrArg (Option.map A64.State.pc) (hreach farMachine hload (by decide +kernel))
  have hpc : (A64.run 2 farMachine).map A64.State.pc ≠ some 0x502000 := by decide +kernel
  exact hpc hrun

end Funchook.Windows
