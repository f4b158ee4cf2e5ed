import Funchook.DispatchArm64
import Funchook.Interposition
import Funchook.PlatformArm64
import Funchook.TrampolineRunArm64

/-!
# A hooked function and its original on AArch64

The patch leads to the transit code when that is in range of `ADRP`, and on to the hook; `x9` is
lost on the way. The pointer handed out runs what the function did, up to those registers of `x9`
to `x15` that the moved instructions have not written.
-/

namespace Funchook.Arm64

open ByteMemory Runs
open A64 (Reg State Others AgreeOff)
open Relation (ReflTransGen)

variable {O : Others}

/-! ## From the function to the hook -/

/-- In the memory `m` control that enters `a` comes to `a'` with nothing but `x9` changed. -/
def LeadsTo (O : Others) (m : Mem 64) (a a' : Addr 64) : Prop :=
  ∀ s : State, s.mem = m → s.pc = a →
    ∃ t, ReflTransGen O.Step s t ∧ AgreeOff (· = 9) (s.withPc a') t

section Dispatch

variable {b : Build} {slot : Addr 64} {entry : FunchookEntry 64} {m : Mem 64}

/-- What an install leaves in memory for an entry is what the jumps need. -/
theorem codeLoaded_of_installed (hfilled : Filled entry)
    (hsize : entry.patchCodeSize.toNat = maxPatchCodeSize)
    (hinstalled : CodeInstalled (platform b) m slot
      (funchookFixCode b.hookCallerAsm slot entry)) :
    CodeLoaded m slot (funchookFixCode b.hookCallerAsm slot entry) := by
  have hnew : (funchookFixCode b.hookCallerAsm slot entry).newCode.length = 4 * maxPatchCodeSize :=
    (overwrite_length ..).trans hfilled.newCode
  have htransit : (funchookFixCode b.hookCallerAsm slot entry).transit.length =
      4 * transitCodeSize :=
    (overwrite_length ..).trans hfilled.transit
  have hcode : ((platform b).newPatch (funchookFixCode b.hookCallerAsm slot entry)).code =
      (funchookFixCode b.hookCallerAsm slot entry).newCode := by
    refine List.take_of_length_le (Nat.le_of_eq (hnew.trans ?_))
    show 4 * maxPatchCodeSize = entry.patchCodeSize.toNat * 4
    rw [hsize, Nat.mul_comm]
  have hpatch := hinstalled.patch
  rw [hcode, Holds, hnew] at hpatch
  have htransit' := hinstalled.transit
  rw [Holds, htransit] at htransit'
  exact ⟨hpatch, htransit'⟩

theorem newPatch_size (hfilled : Filled entry) :
    ((platform b).newPatch (funchookFixCode b.hookCallerAsm slot entry)).code.length ≤ 2 ^ 64 := by
  have hle : ((platform b).newPatch (funchookFixCode b.hookCallerAsm slot entry)).code.length ≤
      (funchookFixCode b.hookCallerAsm slot entry).newCode.length := List.length_take_le' ..
  have hnew : (funchookFixCode b.hookCallerAsm slot entry).newCode.length = 4 * maxPatchCodeSize :=
    (overwrite_length ..).trans hfilled.newCode
  exact Nat.le_trans (hnew ▸ hle) (by decide)

/-- **The hook is reached** from the function. -/
theorem leadsTo_entryHook (hfilled : Filled entry) (halign : slot.toNat % 4096 = 0)
    (hrange : inAdrpRange entry.targetFunc slot = true) (hprehook : entry.prehook = 0)
    (hload : CodeLoaded m slot (funchookFixCode b.hookCallerAsm slot entry)) :
    LeadsTo O m entry.targetFunc (entryHook slot entry) := by
  intro s hs hpc
  have hdispatches := @fixCode_dispatches b.hookCallerAsm slot entry hfilled halign hrange
  obtain ⟨-, hpatch⟩ := hdispatches.patch s (hs ▸ hload) hpc
  have hhook := hdispatches.hook hprehook ((s.writeX 9 slot).withPc slot)
    (by rwa [State.withPc_mem, State.writeX_mem, hs]) rfl
  refine ⟨_, (Others.steps_of_run hpatch).trans (Others.steps_of_run hhook), ?_⟩
  have hfirst := ((A64.agreeExcept_writeX 9 s slot).withPc slot).agreeOff (D := (· = 9)) rfl
  have hsecond := (A64.agreeExcept_writeX 9 ((s.writeX 9 slot).withPc slot)
    (entryHook slot entry)).agreeOff (D := (· = 9)) rfl
  exact (hfirst.trans hsecond).withPc (entryHook slot entry)

end Dispatch

/-! ## The original -/

/-- A run may be told with less of the memory intact. -/
theorem MovedRun.imp {m : Mem 64} {func : Addr 64} {intact intact' : Mem 64 → Prop}
    (himp : ∀ mem, intact mem → intact' mem) {pos : ℕ → Addr 64} {k j : ℕ} {s t : State}
    (h : MovedRun O m func intact pos k s j t) : MovedRun O m func intact' pos k s j t := by
  induction h with
  | leaves hk hexec => exact .leaves hk hexec
  | next hk hexec hpc hintact _ ih => exact .next hk hexec hpc (himp _ hintact) ih
  | behind s => exact .behind s

/-- In the memory `m` the code at `original` runs the moved instructions of `func` as they were in
`m₀`, as long as it stays as it is; `d` says where the code of each of them starts. -/
def RunsMoved (O : Others) (m₀ m : Mem 64) (func original : Addr 64) : Prop :=
  ∃ d : ℕ → ℕ, d 0 = 0 ∧ ∀ s j t, s.mem = m → MovedRun O m₀ func
    (fun mem => ∀ a, InRange original (4 * trampolineSize) a → mem a = m a)
    (fun i => wordAddr original (d i)) 0 s j t →
      ∃ t', ReflTransGen O.Step (s.withPc original) t' ∧ AgreeOff (Unwritten O m₀ func j) t t'

/-- **The original** is run by its trampoline. -/
theorem runsMoved_trampoline {accesses : Word → Reg → Prop} {disasm : Disasm} {m₀ m : Mem 64}
    {func tramp : Addr 64} {infos : List InsnInfo} {final : MakeTrampolineContext}
    (hreports : Reports accesses disasm m₀ func infos) (hclass : Classified m₀ func infos)
    (hmake : funchookMakeTrampoline disasm m₀ func = .ok final)
    (haccess : ∀ word r, O.Writes word r → accesses word r) (hreads : ReadsOnlyWritten O m₀ func)
    (hnever : NoneNever m₀ func) (hloaded : Holds m tramp final.trampolineBytes) :
    RunsMoved O m₀ m func tramp := by
  obtain ⟨d, hzero, hplaced⟩ := exists_placed hreports hmake
  refine ⟨d, hzero, fun s j t hs hrun => ?_⟩
  have hlen := trampolineBytes_length final
  have hintact : ∀ mem : Mem 64, (∀ a, InRange tramp (4 * trampolineSize) a → mem a = m a) →
      final.LoadedAt tramp mem := fun mem hmem => by
    have hholds := hloaded.congr (trampolineBytes_small final) fun a ha => hmem a (hlen ▸ ha)
    rwa [Holds, hlen] at hholds
  refine placed_simulates hreports hclass hmake haccess hreads hnever hplaced (hrun.imp hintact)
    (hintact s.mem fun a _ => congrFun hs a) ?_
  rw [hzero, wordAddr_zero]
  exact A64.agreeOff_refl _ _

/-! ## A prepare and an install -/

/-- The entry that a prepare fills, before and after `funchook_fix_code`. -/
theorem prepared_entry {b : Build} {fh : FunchookT 64} {s : World 64} {targetFunc : Addr 64}
    {params : FunchookParams 64} {answer : AllocAnswer 64} {r : PrepareResult 64}
    (p : Prepared (platform b) fh s targetFunc params answer r) :
    ∃ final, funchookMakeTrampoline b.disasm s.bytes p.func = .ok final ∧
      p.entry = funchookFixCode b.hookCallerAsm
        ((platform b).slotAddr p.page.addr p.page.used)
        (fillEntry (platform b) p.world targetFunc p.func params final.trampolineBytes) := by
  obtain ⟨final, hfinal, hpair⟩ := exceptMap_ok p.built
  obtain ⟨-, htrampoline⟩ := Prod.mk.inj hpair
  have hentry := p.entry_eq
  rw [← htrampoline] at hentry
  exact ⟨final, hfinal, hentry⟩

theorem patchCodeSize_fillEntry (b : Build) (s : World 64) (targetFunc func : Addr 64)
    (params : FunchookParams 64) (trampoline : List Byte) :
    (fillEntry (platform b) s targetFunc func params trampoline).patchCodeSize.toNat =
      maxPatchCodeSize := rfl

theorem trampoline_fillEntry {b : Build} {slot : Addr 64} {s : World 64}
    {targetFunc func : Addr 64} {params : FunchookParams 64} {trampoline : List Byte}
    (hlen : trampoline.length = 4 * trampolineSize) :
    (funchookFixCode b.hookCallerAsm slot
      (fillEntry (platform b) s targetFunc func params trampoline)).trampoline = trampoline :=
  List.take_of_length_le (Nat.le_of_eq hlen)

theorem filled_fillEntry (b : Build) (s : World 64) (targetFunc func : Addr 64)
    (params : FunchookParams 64) (trampoline : List Byte) :
    Filled (fillEntry (platform b) s targetFunc func params trampoline) where
  newCode := List.length_replicate
  transit := List.length_replicate

/-- **Interposition on AArch64.** After a prepare, any prepares before and after it and a successful
install whose patches are apart and outside the pages, the function leads to the hook when its slot
is aligned and in range of `ADRP`, the pointer handed out runs what the function did when it was
prepared, and the program is the same but for the patches. -/
theorem function_interposed (b : Build) {s₀ : World 64} {st st' : HandleState 64}
    (hbefore : PrepareRun (platform b) s₀ st) {targetFunc : Addr 64} {params : FunchookParams 64}
    {answer : AllocAnswer 64} {r : PrepareResult 64} (hfresh : answer.Fresh (platform b) st.world)
    (hnonzero : FailuresNonzero (platform b) st.world targetFunc answer)
    (hprepare : funchookPrepareInternal (platform b) st.fh st.world targetFunc params answer =
      some r) (hok : r.rv = errorSuccess)
    (hafter : PreparesAfter (platform b) ⟨r.fh, r.world, st.installFailed⟩ st')
    (hapart : st'.fh.entries.Pairwise (PatchesApart (platform b)))
    (houtside : TargetsOutside (platform b) st'.fh) {os : List OsAnswer}
    (hrv : (funchookInstallInternal (platform b) st'.fh st'.world os).rv = errorSuccess)
    {accesses : Word → Reg → Prop} {infos : List InsnInfo}
    (hreports : Reports accesses b.disasm st.world.bytes
      (b.resolveFunc st.world.bytes targetFunc) infos)
    (hclass : Classified st.world.bytes (b.resolveFunc st.world.bytes targetFunc) infos)
    (haccess : ∀ word r, O.Writes word r → accesses word r)
    (hreads : ReadsOnlyWritten O st.world.bytes (b.resolveFunc st.world.bytes targetFunc))
    (hnever : NoneNever st.world.bytes (b.resolveFunc st.world.bytes targetFunc)) :
    ∃ slot, ∃ e ∈ st'.fh.entries, e.targetFunc = b.resolveFunc st.world.bytes targetFunc ∧
      r.targetFunc = (platform b).trampolineAddr slot ∧
      (params.prehook = 0 → slot.toNat % 4096 = 0 → inAdrpRange e.targetFunc slot = true →
        LeadsTo O (funchookInstallInternal (platform b) st'.fh st'.world os).world.bytes
          e.targetFunc (hookOrTrampoline r.targetFunc params.hookFunc)) ∧
      RunsMoved O st.world.bytes
        (funchookInstallInternal (platform b) st'.fh st'.world os).world.bytes e.targetFunc
        r.targetFunc ∧
      ∀ a, s₀.mapped a = true → (∀ e' ∈ st'.fh.entries, ¬ (platform b).TargetByte e' a) →
        (funchookInstallInternal (platform b) st'.fh st'.world os).world.bytes a =
          st.world.bytes a := by
  have hst := preparing_run hbefore
  obtain ⟨p⟩ := prepare_success hnonzero hprepare hok
  generalize hslot : (platform b).slotAddr p.page.addr p.page.used = slot
  obtain ⟨final, hfinal, hentry⟩ := prepared_entry p
  have hfilled : EntryAt (platform b) r.fh slot p.entry :=
    (entryAt_prepared p).mpr (Or.inr ⟨hslot.symm, rfl⟩)
  obtain ⟨hst', he⟩ := preparing_entryAt (preparing_prepare hst hfresh hprepare) hfilled hafter
  rw [hslot] at hentry
  have hfunc : p.func = b.resolveFunc st.world.bytes targetFunc := p.resolved
  have htarget : p.entry.targetFunc = p.func := by
    rw [hentry]
    rfl
  have hcode := filled_fillEntry b p.world targetFunc p.func params final.trampolineBytes
  have hnew : ((platform b).newPatch p.entry).code.length ≤ 2 ^ 64 := by
    rw [hentry]
    exact newPatch_size hcode
  obtain ⟨hinstalled, hloaded, hprogram⟩ := install_inPlace hst p.not_installed hst' hapart houtside
    hrv he hnew
  have horiginal : r.targetFunc = (platform b).trampolineAddr slot := by
    rw [← hslot]
    exact congrArg PrepareResult.targetFunc p.result
  refine ⟨slot, p.entry, he.mem, htarget.trans hfunc, horiginal,
    fun hprehook halign hrange => ?_, ?_, hprogram⟩
  · rw [htarget] at hrange ⊢
    rw [horiginal]
    rw [hentry] at hinstalled
    exact leadsTo_entryHook hcode halign hrange hprehook
      (codeLoaded_of_installed hcode (patchCodeSize_fillEntry ..) hinstalled)
  · rw [hfunc] at hfinal
    have hfill : p.entry.trampoline = final.trampolineBytes := by
      rw [hentry]
      exact trampoline_fillEntry (trampolineBytes_length final)
    rw [hfill] at hloaded
    rw [htarget, hfunc, horiginal]
    exact runsMoved_trampoline hreports hclass hfinal haccess hreads hnever hloaded

/-! ## A sample hook -/

def cbzBuild : Build where
  disasm := sampleDisasm
  resolveFunc := fun _ func => func
  pageSize := (X86.sampleBuild .x86_64).pageSize
  hookCallerAsm := 0x403000

/-- A process with `cbzCode` at `0x401000`. -/
def cbzWorld : World 64 where
  bytes := cbzCode
  mapped := fun a => decide (InRange 0x400000 0x4000 a)

def cbzPrepared : PrepareResult 64 :=
  (funchookPrepareInternal (platform cbzBuild) funchookCreate cbzWorld 0x401000
    ⟨0x402000, 0, 0, 0⟩ ⟨.ok 0x500000, .ok⟩).get (by decide +kernel)

theorem function_interposed_sample :
    ∃ slot, ∃ e ∈ cbzPrepared.fh.entries, e.targetFunc = 0x401000 ∧
      cbzPrepared.targetFunc = (platform cbzBuild).trampolineAddr slot ∧
      ((0 : Addr 64) = 0 → slot.toNat % 4096 = 0 → inAdrpRange e.targetFunc slot = true →
        LeadsTo nopOnly (funchookInstallInternal (platform cbzBuild) cbzPrepared.fh
          cbzPrepared.world []).world.bytes e.targetFunc
          (hookOrTrampoline cbzPrepared.targetFunc 0x402000)) ∧
      RunsMoved nopOnly cbzCode (funchookInstallInternal (platform cbzBuild) cbzPrepared.fh
        cbzPrepared.world []).world.bytes e.targetFunc cbzPrepared.targetFunc ∧
      ∀ a, cbzWorld.mapped a = true →
        (∀ e' ∈ cbzPrepared.fh.entries, ¬ (platform cbzBuild).TargetByte e' a) →
          (funchookInstallInternal (platform cbzBuild) cbzPrepared.fh
            cbzPrepared.world []).world.bytes a = cbzCode a := by
  have hpages : ∀ e ∈ cbzPrepared.fh.entries, ∀ page ∈ cbzPrepared.fh.pageList,
      (platform cbzBuild).patchCodeByteSize e ≤ (page.addr - e.targetFunc).toNat ∧
        (platform cbzBuild).pageSize ≤ (e.targetFunc - page.addr).toNat := by
    decide +kernel
  have hmake : ((platform cbzBuild).funchookMakeTrampoline cbzCode 0x401000).isOk = true := by
    decide +kernel
  have hone : cbzPrepared.fh.entries.length = 1 := by decide +kernel
  obtain ⟨entry, hentry⟩ := List.length_eq_one_iff.mp hone
  refine @function_interposed nopOnly cbzBuild cbzWorld (.start cbzWorld)
    ⟨cbzPrepared.fh, cbzPrepared.world, false⟩ .start 0x401000 ⟨0x402000, 0, 0, 0⟩
    ⟨.ok 0x500000, .ok⟩ cbzPrepared sample_fresh ⟨fun f hf => ?_, fun f hf => by cases hf⟩
    (Option.some_get _).symm (by decide +kernel) .start
    (hentry ▸ List.pairwise_singleton ..) (fun e he page hpage a hta ha => ?_) []
    (by decide +kernel) sampleAccesses _ (sampleDisasm_reports _ _) (sampleWindow_classified 2 _ _)
    (fun _ _ => nopOnly_writes) cbzCode_readsOnlyWritten cbzCode_noneNever
  · change (platform cbzBuild).funchookMakeTrampoline cbzCode 0x401000 = .error f at hf
    rw [hf] at hmake
    cases hmake
  · obtain ⟨hbefore, hbehind⟩ := hpages e he page hpage
    exact absurd ha (rangesDisjoint_of_distance hbefore hbehind a hta)

end Funchook.Arm64
