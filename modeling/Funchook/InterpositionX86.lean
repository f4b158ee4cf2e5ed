import Funchook.DispatchX86
import Funchook.Interposition
import Funchook.TrampolineRunX86

/-!
# A hooked function and its original on x86 and x86-64

What a prepare, the prepares after it and the install come to for a machine that runs the code: the
function leads to the hook, and the pointer handed out to what the function did.
-/

namespace Funchook.X86

open ByteMemory Runs
open ByteCode (Machine)
open Ia32 (Instr)

variable {cpu : Cpu} {σ : Type} {M : Machine cpu.bits σ}

/-! ## From the function to the hook -/

/-- In the memory `m` control that enters `a` comes to `a'` with nothing else changed. -/
def LeadsTo (M : Machine cpu.bits σ) (m : Mem cpu.bits) (a a' : Addr cpu.bits) : Prop :=
  ∀ s, M.mem s = m → M.Steps (M.withIp s a) (M.withIp s a')

section Dispatch

variable {b : Build cpu} {slot : Addr cpu.bits} {e : FunchookEntry cpu.bits} {s : σ}

/-- A step at the patch. -/
theorem machine_step_patch (hjump : JumpsNear M) (hcode : EntryCode b slot e)
    (hinstalled : CodeInstalled (platform b) (M.mem s) slot e) :
    M.step (M.withIp s e.targetFunc) = some (M.withIp s (patchDst cpu slot e)) := by
  have hpatch := hinstalled.patch
  rw [newPatch_code hcode, holds_append] at hpatch
  rw [Machine.step_of_holds (hjump.insn _) (by rw [M.mem_withIp, M.ip_withIp]; exact hpatch.1),
    M.exec_withIp, hjump.exec, M.ip_withIp]
  exact congrArg (fun p => some (M.withIp s p)) (displacement_reaches hcode.reach)

/-- A step at the transit code of a far hook. -/
theorem machine_step_far (hindirect : JumpsThroughMemory cpu M) (hcode : EntryCode b slot e)
    (hprehook : e.prehook = 0) (hthrough : ThroughTransit cpu slot e)
    (hinstalled : CodeInstalled (platform b) (M.mem s) slot e) :
    M.step (M.withIp s slot) = some (M.withIp s (entryHook cpu slot e)) := by
  obtain ⟨rest, hrest⟩ := hcode.far hprehook hthrough
  have htransit := hinstalled.transit
  rw [hrest, List.append_assoc, holds_append, holds_append, Ia32.encode_length] at htransit
  obtain ⟨hjmp, hptr, -⟩ := htransit
  rw [Machine.step_of_holds (hindirect.insn 0) (by rw [M.mem_withIp, M.ip_withIp]; exact hjmp),
    M.exec_withIp, hindirect.exec, M.ip_withIp]
  refine congrArg (fun p => some (M.withIp s p)) ?_
  have hfar := hthrough.resolve_left (not_not.mpr hprehook)
  cases cpu with
  | i386 => cases hfar
  | x86_64 =>
    refine Eq.trans (congrArg (readPtr (M.mem s)) ?_) (readPtr_of_holds hptr)
    exact BitVec.add_zero _

/-- **The hook is reached** from the function. -/
theorem leadsTo_entryHook (hjump : JumpsNear M) (hindirect : JumpsThroughMemory cpu M)
    (hcode : EntryCode b slot e) (hprehook : e.prehook = 0) {m : Mem cpu.bits}
    (hinstalled : CodeInstalled (platform b) m slot e) :
    LeadsTo M m e.targetFunc (entryHook cpu slot e) := by
  intro s hs
  rw [← hs] at hinstalled
  have hstep := machine_step_patch hjump hcode hinstalled
  by_cases hthrough : ThroughTransit cpu slot e
  · rw [patchDst, if_pos hthrough] at hstep
    exact .head hstep (.single (machine_step_far hindirect hcode hprehook hthrough hinstalled))
  · rw [patchDst, if_neg hthrough] at hstep
    exact .single hstep

end Dispatch

/-! ## The original -/

/-- A run may be told with less of the memory intact. -/
theorem MovedRun.imp {w : ℕ} {M : Machine w σ} {m : Mem w} {func tramp : Addr w}
    {insns : List (Insn w)} {intact intact' : Mem w → Prop} (himp : ∀ mem, intact mem → intact' mem)
    {n k : ℕ} {s t : σ} (h : MovedRun M m func tramp insns intact n k s t) :
    MovedRun M m func tramp insns intact' n k s t := by
  induction h with
  | leaves hat hk hexec => exact .leaves hat hk hexec
  | next hat hk hexec hip hintact _ ih => exact .next hat hk hexec hip (himp _ hintact) ih
  | behind s => exact .behind s

/-- In the memory `m` the code at `original` runs the first `n` bytes of `func` as they were in
`m₀`, as long as it stays as it is. -/
def RunsMoved (M : Machine cpu.bits σ) (m₀ m : Mem cpu.bits) (func original : Addr cpu.bits)
    (insns : List (Insn cpu.bits)) (n : ℕ) : Prop :=
  ∀ s t, M.mem s = m → MovedRun M m₀ func original insns
    (fun mem => ∀ a, InRange original trampolineSize a → mem a = m a) n 0 s t →
      M.Steps (M.withIp s original) t

/-- **The original** is run by its trampoline. -/
theorem runsMoved_trampoline {disasm : Disasm cpu.bits} {m₀ m : Mem cpu.bits}
    {func slot : Addr cpu.bits} {insns : List (Insn cpu.bits)}
    {ctx : MakeTrampolineContext cpu.bits} (hcode : CodeReported cpu disasm m₀ func insns)
    (hmake : funchookMakeTrampoline cpu disasm m₀ func = .ok ctx)
    (havail : funchookPageAvail cpu slot func ctx.ripDisp = true)
    (hagree : FieldsAgree M m₀ func insns) (hjump : JumpsNear M)
    (hlen : ctx.trampoline.length = trampolineSize)
    (hloaded : Holds m (slot + BitVec.ofNat cpu.bits (trampolineOffset cpu))
      (fixedCode (slot + BitVec.ofNat cpu.bits (trampolineOffset cpu)) ctx)) :
    RunsMoved M m₀ m func (slot + BitVec.ofNat cpu.bits (trampolineOffset cpu)) insns ctx.src := by
  intro s t hs hrun
  obtain ⟨hexact, hroom⟩ := made_relocated hcode hmake havail
  have hfixedLen := (fixedCode_length (slot + BitVec.ofNat cpu.bits (trampolineOffset cpu)) ctx)
  have hmoved := hrun.imp fun mem hmem => hloaded.congr
    (by rw [hfixedLen, hlen]; cases cpu <;> decide) fun a ha =>
      hmem a (by rwa [hfixedLen, hlen] at ha)
  rw [← hs] at hloaded
  rw [← BitVec.add_zero (slot + BitVec.ofNat cpu.bits (trampolineOffset cpu))]
  exact steps_of_movedRun hagree hjump hexact (by rwa [hfixedLen]) hcode.insn
    (made_fieldOrNone hcode hmake) hmoved hloaded

/-- The entry that a prepare fills. -/
theorem prepared_entry {b : Build cpu} {fh : FunchookT cpu.bits} {s : World cpu.bits}
    {targetFunc : Addr cpu.bits} {params : FunchookParams cpu.bits} {answer : AllocAnswer cpu.bits}
    {r : PrepareResult cpu.bits} (p : Prepared (platform b) fh s targetFunc params answer r) :
    ∃ ctx, funchookMakeTrampoline cpu b.disasm.decode s.bytes p.func = .ok ctx ∧
      funchookPageAvail cpu ((platform b).slotAddr p.page.addr p.page.used) p.func ctx.ripDisp =
        true ∧
      p.entry = funchookFixCode cpu b.hookCallerAsm
        ((platform b).slotAddr p.page.addr p.page.used)
        (fillEntry (platform b) p.world targetFunc p.func params ctx.trampoline) ctx.ripDisp ∧
      p.entry.patchCodeSize.toNat = ctx.src := by
  obtain ⟨ctx, hctx, hpair⟩ := exceptMap_ok p.built
  obtain ⟨hdisp, htrampoline⟩ := Prod.mk.inj hpair
  have hentry := p.entry_eq
  have havail := p.found.avail
  rw [← hdisp, ← htrampoline] at hentry
  rw [← hdisp] at havail
  refine ⟨ctx, hctx, havail, hentry, ?_⟩
  rw [hentry]
  exact finished_patchCodeSize (funchookMakeTrampoline_finished b.disasm hctx)

/-- **Interposition.** After a prepare, any prepares before and after it and a successful install
whose patches are apart and outside the pages, the function leads to the hook, the pointer handed
out runs what the function did when it was prepared, and the program is the same but for the
patches. -/
theorem hook_interposed (b : Build cpu) {s₀ : World cpu.bits} {st st' : HandleState cpu.bits}
    (hbefore : PrepareRun (platform b) s₀ st) {targetFunc : Addr cpu.bits}
    {params : FunchookParams cpu.bits} {answer : AllocAnswer cpu.bits} {r : PrepareResult cpu.bits}
    (hfresh : answer.Fresh (platform b) st.world)
    (hnonzero : FailuresNonzero (platform b) st.world targetFunc answer)
    (hprepare : funchookPrepareInternal (platform b) st.fh st.world targetFunc params answer =
      some r) (hok : r.rv = errorSuccess)
    (hafter : PreparesAfter (platform b) ⟨r.fh, r.world, st.installFailed⟩ st')
    (hapart : st'.fh.entries.Pairwise (PatchesApart (platform b)))
    (houtside : TargetsOutside (platform b) st'.fh) {os : List OsAnswer}
    (hrv : (funchookInstallInternal (platform b) st'.fh st'.world os).rv = errorSuccess)
    (hjump : JumpsNear M) (hindirect : JumpsThroughMemory cpu M)
    {insns : List (Insn cpu.bits)}
    (hcode : CodeReported cpu b.disasm.decode st.world.bytes
      (b.resolveFunc st.world.bytes targetFunc) insns)
    (hagree : FieldsAgree M st.world.bytes (b.resolveFunc st.world.bytes targetFunc) insns) :
    ∃ e ∈ st'.fh.entries, e.targetFunc = b.resolveFunc st.world.bytes targetFunc ∧
      (params.prehook = 0 → LeadsTo M
        (funchookInstallInternal (platform b) st'.fh st'.world os).world.bytes e.targetFunc
        (hookOrTrampoline r.targetFunc params.hookFunc)) ∧
      RunsMoved M st.world.bytes
        (funchookInstallInternal (platform b) st'.fh st'.world os).world.bytes e.targetFunc
        r.targetFunc insns e.patchCodeSize.toNat ∧
      ∀ a, s₀.mapped a = true → (∀ e' ∈ st'.fh.entries, ¬ (platform b).TargetByte e' a) →
        (funchookInstallInternal (platform b) st'.fh st'.world os).world.bytes a =
          st.world.bytes a := by
  have hst := preparing_run hbefore
  obtain ⟨p⟩ := prepare_success hnonzero hprepare hok
  generalize hslot : (platform b).slotAddr p.page.addr p.page.used = slot
  obtain ⟨ctx, hctx, havail, hentry, hsize⟩ := prepared_entry p
  have hfilled : EntryAt (platform b) r.fh slot p.entry :=
    (entryAt_prepared p).mpr (Or.inr ⟨hslot.symm, rfl⟩)
  obtain ⟨hst', he⟩ := preparing_entryAt (preparing_prepare hst hfresh hprepare) hfilled hafter
  have hentryCode := entryCode_of_builtFor (hst'.entries.built slot p.entry he)
  obtain ⟨hinstalled, hloaded, hprogram⟩ := install_inPlace hst p.not_installed hst' hapart houtside
    hrv he (newPatch_size hentryCode)
  rw [hslot] at havail hentry
  have hfunc : p.func = b.resolveFunc st.world.bytes targetFunc := p.resolved
  have htarget : p.entry.targetFunc = p.func := by
    rw [hentry]
    rfl
  have horiginal : r.targetFunc = (platform b).trampolineAddr slot := by
    rw [← hslot]
    exact congrArg PrepareResult.targetFunc p.result
  refine ⟨p.entry, he.mem, htarget.trans hfunc, fun hprehook => ?_, ?_, hprogram⟩
  · have hhook : entryHook cpu slot p.entry = hookOrTrampoline r.targetFunc params.hookFunc := by
      rw [hentry, horiginal]
      rfl
    rw [← hhook]
    refine leadsTo_entryHook hjump hindirect hentryCode ?_ hinstalled
    rw [hentry]
    exact hprehook
  · rw [hfunc] at hctx havail
    obtain ⟨k, last, -, hdone, -⟩ := funchookMakeTrampoline_done hcode hctx
    have hfill : (fillEntry (platform b) p.world targetFunc p.func params
        ctx.trampoline).trampoline = ctx.trampoline :=
      List.take_of_length_le (Nat.le_of_eq hdone.length)
    rw [hentry, fixCode_fixedCode b.hookCallerAsm slot hfill] at hloaded
    rw [hsize, htarget, hfunc, horiginal]
    exact runsMoved_trampoline hcode hctx havail hagree hjump hdone.length hloaded

/-! ## A sample hook -/

/-- The sample process with two `nop` and a jump at `0x401200`. -/
def jumpWorld : World 64 := { sampleWorld with bytes := sampleJump }

def jumpPrepared : PrepareResult 64 :=
  (funchookPrepareInternal samplePlatform funchookCreate jumpWorld 0x401200 ⟨0x401000, 0, 0, 0⟩
    ⟨.ok 0x500000, .ok⟩).get (by decide +kernel)

theorem hook_interposed_sample :
    ∃ e ∈ jumpPrepared.fh.entries, e.targetFunc = 0x401200 ∧
      ((0 : Addr 64) = 0 → @LeadsTo .x86_64 _ (Ia32.machine 64)
        (funchookInstallInternal samplePlatform jumpPrepared.fh jumpPrepared.world []).world.bytes
        e.targetFunc (hookOrTrampoline jumpPrepared.targetFunc 0x401000)) ∧
      @RunsMoved .x86_64 _ (Ia32.machine 64) sampleJump
        (funchookInstallInternal samplePlatform jumpPrepared.fh jumpPrepared.world []).world.bytes
        e.targetFunc jumpPrepared.targetFunc sampleJumpInsns e.patchCodeSize.toNat ∧
      ∀ a, jumpWorld.mapped a = true →
        (∀ e' ∈ jumpPrepared.fh.entries, ¬ samplePlatform.TargetByte e' a) →
          (funchookInstallInternal samplePlatform jumpPrepared.fh
            jumpPrepared.world []).world.bytes a = sampleJump a := by
  have hpages : ∀ e ∈ jumpPrepared.fh.entries, ∀ page ∈ jumpPrepared.fh.pageList,
      samplePlatform.patchCodeByteSize e ≤ (page.addr - e.targetFunc).toNat ∧
        samplePlatform.pageSize ≤ (e.targetFunc - page.addr).toNat := by
    decide +kernel
  have hmake : (samplePlatform.funchookMakeTrampoline sampleJump 0x401200).isOk = true := by
    decide +kernel
  refine @hook_interposed .x86_64 _ (Ia32.machine 64) (sampleBuild .x86_64) jumpWorld
    (.start jumpWorld) ⟨jumpPrepared.fh, jumpPrepared.world, false⟩ .start 0x401200
    ⟨0x401000, 0, 0, 0⟩ ⟨.ok 0x500000, .ok⟩ jumpPrepared sample_fresh
    ⟨fun f hf => ?_, fun f hf => by cases hf⟩ (Option.some_get _).symm (by decide +kernel) .start
    (patchesApart_of_distant (by decide +kernel)) (fun e he page hpage a hta ha => ?_) []
    (by decide +kernel) (machine_jumpsNear 64) machine_jumpsThroughMemory sampleJumpInsns
    sampleJump_reported sampleJump_fieldsAgree
  · change samplePlatform.funchookMakeTrampoline sampleJump 0x401200 = .error f at hf
    rw [hf] at hmake
    cases hmake
  · obtain ⟨hbefore, hbehind⟩ := hpages e he page hpage
    exact absurd ha (rangesDisjoint_of_distance hbefore hbehind a hta)

end Funchook.X86
