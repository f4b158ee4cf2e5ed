import Funchook.InstalledEntries
import Funchook.TrampolineX86
import Funchook.Lib.Ia32

/-!
# From a patched function to its hook on x86 and x86-64

The patch is a jump with a 32-bit displacement. It leads to the hook when there is no prehook and
the hook is in reach, and to the transit code otherwise. The transit code jumps through a 64-bit
pointer to a far hook, or hands its own address to the prehook bridge. The transit code of i386 has
no instruction that reads the instruction pointer, so it calls its own tail, which loads the return
address from the stack.
-/

namespace Funchook.X86

open ByteMemory Runs
open Ia32 (Instr State Reg)

variable {w : ℕ}

/-! ## The processors -/

/-- Whether the code runs in 64-bit mode. -/
def Cpu.long : Cpu → Bool
  | .i386 => false
  | .x86_64 => true

/-- The register that the bridge takes the address of the transit code from: `eax` or `r11`. -/
def transitReg : Cpu → Reg
  | .i386 => 0
  | .x86_64 => 11

/-- How many bytes below the stack pointer the transit code writes. -/
def transitStackSize : Cpu → ℕ
  | .i386 => 4
  | .x86_64 => 0

/-- `a` is one of the bytes below the stack pointer that the transit code writes. -/
def BelowStack (cpu : Cpu) (sp a : Addr cpu.bits) : Prop :=
  InRange (sp - BitVec.ofNat cpu.bits (transitStackSize cpu)) (transitStackSize cpu) a

/-! ## The template -/

/-- The instructions of `TRANSIT_CODE_TEMPLATE`. -/
def templateInstrs : Cpu → List Instr
  | .i386 => [.callRel 9, .lea 0 0 0xfb, .jmpMem 0 0x14, .movTop 0, .ret]
  | .x86_64 => [.leaIp 11 0xfffffff9, .jmpMemIp 0]

theorem ptrBytes_end (cpu : Cpu) (a : Addr cpu.bits) :
    transitHookCallerAddr cpu + (ptrBytes cpu a).length = transitCodeSize cpu := by
  cases cpu with
  | i386 => exact congrArg (0x14 + ·) (leBytes_length 4 a)
  | x86_64 => exact congrArg (0xd + ·) (leBytes_length 8 a)

theorem readPtr_of_holds {cpu : Cpu} {m : Mem cpu.bits} {p a : Addr cpu.bits}
    (h : Holds m p (ptrBytes cpu a)) : readPtr m p = a := by
  cases cpu with
  | i386 =>
    show (readWord 4 m p).setWidth 32 = a
    rw [Holds.word (n := 4) h]
    exact BitVec.setWidth_eq a
  | x86_64 =>
    show (readWord 8 m p).setWidth 64 = a
    rw [Holds.word (n := 8) h]
    exact BitVec.setWidth_eq a

theorem jumpWithPrehook_eq (cpu : Cpu) (hookCallerAsm : Addr cpu.bits) :
    funchookWriteJumpWithPrehook cpu hookCallerAsm =
      (transitCodeTemplate cpu).take (transitHookCallerAddr cpu) ++ ptrBytes cpu hookCallerAsm := by
  have hend := ptrBytes_end cpu hookCallerAsm
  have hlen := transitCodeTemplate_length cpu
  unfold funchookWriteJumpWithPrehook
  rw [overwrite_eq (by omega), hend, ← hlen, List.drop_length, List.append_nil]

theorem template_asm (cpu : Cpu) : Ia32.asm (templateInstrs cpu) <+:
    (transitCodeTemplate cpu).take (transitHookCallerAddr cpu) := by
  cases cpu with
  | i386 => exact ⟨[0x66, 0x90], by decide⟩
  | x86_64 => exact ⟨[], by decide⟩

/-- The template in memory: its instructions, and the pointer to the bridge. -/
theorem template_holds {cpu : Cpu} {m : Mem cpu.bits} {slot hookCallerAsm : Addr cpu.bits}
    (h : Holds m slot (funchookWriteJumpWithPrehook cpu hookCallerAsm)) :
    Holds m slot (Ia32.asm (templateInstrs cpu)) ∧
      readPtr m (slot + BitVec.ofNat cpu.bits (transitHookCallerAddr cpu)) =
        hookCallerAsm := by
  rw [jumpWithPrehook_eq, holds_append] at h
  obtain ⟨hcode, hptr⟩ := h
  have htake : ((transitCodeTemplate cpu).take (transitHookCallerAddr cpu)).length =
      transitHookCallerAddr cpu := by
    cases cpu <;> rfl
  rw [htake] at hptr
  obtain ⟨rest, hrest⟩ := template_asm cpu
  rw [← hrest, holds_append] at hcode
  exact ⟨hcode.1, readPtr_of_holds hptr⟩

/-- The bridge has been entered from the transit code at `slot`. -/
structure BridgeReached (cpu : Cpu) (hookCallerAsm slot : Addr cpu.bits) (s s' : State cpu.bits) :
    Prop where
  ip : s'.ip = hookCallerAsm
  transit : s'.reg (transitReg cpu) = slot
  regs : ∀ r, r ≠ transitReg cpu → s'.reg r = s.reg r
  flags : s'.flags = s.flags
  mem : ∀ a, ¬ BelowStack cpu s.sp a → s'.mem a = s.mem a

theorem run_template_x86_64 {slot hookCallerAsm : Addr 64} {s : State 64} (hip : s.ip = slot)
    (hcode : @Holds 64 s.mem slot (funchookWriteJumpWithPrehook .x86_64 hookCallerAsm)) :
    Ia32.run true 2 s = some ((s.writeReg 11 slot).withIp hookCallerAsm) := by
  obtain ⟨hasm, hptr⟩ := @template_holds .x86_64 _ _ _ hcode
  have hlea : slot + BitVec.ofNat 64 7 + (0xfffffff9 : BitVec 32).signExtend 64 = slot := by
    rw [BitVec.add_assoc]
    exact BitVec.add_zero slot
  have hjmp : slot + BitVec.ofNat 64 13 + (0 : BitVec 32).signExtend 64 =
      slot + BitVec.ofNat 64 13 :=
    BitVec.add_zero _
  have hoff₁ : Ia32.offset (templateInstrs .x86_64) 1 = 7 := rfl
  have hoff₂ : Ia32.offset (templateInstrs .x86_64) 2 = 13 := rfl
  have hstep₁ : Ia32.step true s =
      some ((s.writeReg 11 slot).withIp (slot + BitVec.ofNat 64 7)) := by
    have hstep := @Ia32.step_at 64 true _ s slot 0 (.leaIp 11 0xfffffff9) hasm rfl rfl
      (hip.trans (BitVec.add_zero slot).symm)
    rw [hstep, hoff₁, Instr.effect, hlea]
  have hstep₂ : Ia32.step true ((s.writeReg 11 slot).withIp (slot + BitVec.ofNat 64 7)) =
      some ((s.writeReg 11 slot).withIp hookCallerAsm) := by
    have hstep := @Ia32.step_at 64 true _ ((s.writeReg 11 slot).withIp (slot + BitVec.ofNat 64 7))
      slot 1 (.jmpMemIp 0) hasm rfl rfl (by rw [hoff₁]; rfl)
    have hptr' : readPtr s.mem (slot + BitVec.ofNat 64 13) = hookCallerAsm := hptr
    rw [hstep, hoff₂, Instr.effect, hjmp, State.withIp_mem, State.writeReg_mem, hptr',
      State.withIp_withIp]
  rw [Ia32.run_succ hstep₁, Ia32.run_one hstep₂]

/-- The call of the template has left the address behind it in `eax` and returned there. -/
structure PcFetched (slot : Addr 32) (s s' : State 32) : Prop where
  ip : s'.ip = slot + BitVec.ofNat 32 5
  eax : s'.reg 0 = slot + BitVec.ofNat 32 5
  regs : ∀ r, r ≠ 0 → s'.reg r = s.reg r
  flags : s'.flags = s.flags
  mem : s'.mem = writePtr s.mem (s.sp - BitVec.ofNat 32 4) (slot + BitVec.ofNat 32 5)

theorem run_fetch_pc {slot : Addr 32} {s : State 32} (hip : s.ip = slot)
    (hasm₀ : Holds s.mem slot (Ia32.asm (templateInstrs .i386)))
    (hasm : Holds (writePtr s.mem (s.sp - BitVec.ofNat 32 4) (slot + BitVec.ofNat 32 5)) slot
      (Ia32.asm (templateInstrs .i386))) :
    ∃ s', Ia32.run false 3 s = some s' ∧ PcFetched slot s s' := by
  have hreturn := readPtr_writePtr s.mem (s.sp - BitVec.ofNat 32 4)
    (slot + BitVec.ofNat 32 5) rfl
  have hcall : slot + BitVec.ofNat 32 5 + (9 : BitVec 32).signExtend 32 =
      slot + BitVec.ofNat 32 14 :=
    BitVec.add_assoc ..
  obtain ⟨s₁, hstep₁, hip₁, hmem₁, hreg₁, hflags₁⟩ : ∃ s₁, Ia32.step false s = some s₁ ∧
      s₁.ip = slot + BitVec.ofNat 32 14 ∧
      s₁.mem = writePtr s.mem (s.sp - BitVec.ofNat 32 4) (slot + BitVec.ofNat 32 5) ∧
      s₁.reg = (s.writeReg 4 (s.sp - BitVec.ofNat 32 4)).reg ∧ s₁.flags = s.flags :=
    ⟨_, @Ia32.step_at 32 false _ s slot 0 (.callRel 9) hasm₀ rfl rfl
      (hip.trans (BitVec.add_zero slot).symm), hcall, rfl, rfl, rfl⟩
  rw [← hmem₁] at hasm hreturn
  have hsp₁ : s₁.sp = s.sp - BitVec.ofNat 32 4 := by
    rw [State.sp, hreg₁, State.writeReg_reg_self]
  have hstep₂ : Ia32.step false s₁ =
      some ((s₁.writeReg 0 (slot + BitVec.ofNat 32 5)).withIp (slot + BitVec.ofNat 32 17)) := by
    have hstep := @Ia32.step_at 32 false _ s₁ slot 3 (.movTop 0) hasm rfl rfl hip₁
    rw [hstep, Instr.effect, hsp₁, hreturn]
    rfl
  generalize hs₂ : (s₁.writeReg 0 (slot + BitVec.ofNat 32 5)).withIp
    (slot + BitVec.ofNat 32 17) = s₂ at hstep₂
  have hsp₂ : s₂.sp = s.sp - BitVec.ofNat 32 4 := by rw [← hs₂, ← hsp₁]; rfl
  have hmem₂ : s₂.mem = s₁.mem := by rw [← hs₂]; rfl
  have hstep₃ : Ia32.step false s₂ =
      some ((s₂.writeReg 4 s.sp).withIp (slot + BitVec.ofNat 32 5)) := by
    have hstep := @Ia32.step_at 32 false _ s₂ slot 4 .ret (by rwa [hmem₂]) rfl rfl
      (by rw [← hs₂]; rfl)
    rw [hstep, Instr.effect, hsp₂, hmem₂, hreturn]
    exact congrArg (fun v => some ((s₂.writeReg 4 v).withIp _)) (BitVec.sub_add_cancel ..)
  refine ⟨(s₂.writeReg 4 s.sp).withIp (slot + BitVec.ofNat 32 5), ?_, rfl, ?_, ?_, ?_, ?_⟩
  · rw [Ia32.run_succ hstep₁, Ia32.run_succ hstep₂]
    exact Ia32.run_one hstep₃
  · show s₂.reg 0 = slot + BitVec.ofNat 32 5
    rw [← hs₂]
    rfl
  · intro r hr
    show (s₂.writeReg 4 s.sp).reg r = s.reg r
    by_cases hr₄ : r = 4
    · rw [hr₄, State.writeReg_reg_self, State.sp]
    · rw [State.writeReg_reg_of_ne _ _ hr₄, ← hs₂]
      show (s₁.writeReg 0 _).reg r = s.reg r
      rw [State.writeReg_reg_of_ne _ _ hr, hreg₁, State.writeReg_reg_of_ne _ _ hr₄]
  · show s₂.flags = s.flags
    rw [← hs₂, ← hflags₁]
    rfl
  · show s₂.mem = _
    rw [hmem₂, hmem₁]

theorem run_template_i386 {slot hookCallerAsm : Addr 32} {s : State 32} (hip : s.ip = slot)
    (hcode : @Holds 32 s.mem slot (funchookWriteJumpWithPrehook .i386 hookCallerAsm))
    (hclear : ∀ a, BelowStack .i386 s.sp a → ¬ InRange slot (transitCodeSize .i386) a) :
    ∃ s', Ia32.run false 5 s = some s' ∧ BridgeReached .i386 hookCallerAsm slot s s' := by
  have hlen : (@funchookWriteJumpWithPrehook .i386 hookCallerAsm).length =
      transitCodeSize .i386 := by
    simp [funchookWriteJumpWithPrehook, transitCodeTemplate_length]
  -- the return address is pushed beside the code
  have hframe : ∀ a, ¬ BelowStack .i386 s.sp a →
      writePtr s.mem (s.sp - BitVec.ofNat 32 4) (slot + BitVec.ofNat 32 5) a = s.mem a :=
    fun a ha => write_of_not_inRange ha
  obtain ⟨hasm, hptr⟩ := @template_holds .i386 _ _ _ (Holds.congr hcode (by rw [hlen]; decide)
    fun a ha => hframe a fun hin => hclear a hin (by rwa [hlen] at ha))
  obtain ⟨s₃, hrun, hfetched⟩ :=
    run_fetch_pc hip (@template_holds .i386 _ _ _ hcode).1 hasm
  rw [← hfetched.mem] at hasm hptr
  have hlea : slot + BitVec.ofNat 32 5 + (0xfb : BitVec 8).signExtend 32 = slot := by
    rw [BitVec.add_assoc]
    exact BitVec.add_zero slot
  have hstep₄ : Ia32.step false s₃ =
      some ((s₃.writeReg 0 slot).withIp (slot + BitVec.ofNat 32 8)) := by
    have hstep := @Ia32.step_at 32 false _ s₃ slot 1 (.lea 0 0 0xfb) hasm rfl rfl hfetched.ip
    have hbase : s₃.reg ((0 : BitVec 3).setWidth 4) = slot + BitVec.ofNat 32 5 := hfetched.eax
    rw [hstep, Instr.effect, hbase, hlea]
    rfl
  have hstep₅ : Ia32.step false ((s₃.writeReg 0 slot).withIp (slot + BitVec.ofNat 32 8)) =
      some ((s₃.writeReg 0 slot).withIp hookCallerAsm) := by
    have hstep := @Ia32.step_at 32 false _ ((s₃.writeReg 0 slot).withIp
      (slot + BitVec.ofNat 32 8)) slot 2 (.jmpMem 0 0x14) hasm rfl rfl rfl
    rw [hstep, Instr.effect]
    exact congrArg (fun v => some ((s₃.writeReg 0 slot).withIp v)) hptr
  refine ⟨(s₃.writeReg 0 slot).withIp hookCallerAsm, ?_, rfl, rfl, ?_, hfetched.flags, ?_⟩
  · show Ia32.run false (3 + 2) s = _
    rw [Ia32.run_add hrun, Ia32.run_succ hstep₄]
    exact Ia32.run_one hstep₅
  · intro r hr
    have hr₀ : r ≠ 0 := hr
    show (s₃.writeReg 0 slot).reg r = s.reg r
    rw [State.writeReg_reg_of_ne _ _ hr₀]
    exact hfetched.regs r hr₀
  · intro a ha
    show s₃.mem a = s.mem a
    rw [hfetched.mem]
    exact hframe a ha

theorem run_template {cpu : Cpu} {slot hookCallerAsm : Addr cpu.bits} {s : State cpu.bits}
    (hip : s.ip = slot) (hcode : Holds s.mem slot (funchookWriteJumpWithPrehook cpu hookCallerAsm))
    (hclear : ∀ a, BelowStack cpu s.sp a → ¬ InRange slot (transitCodeSize cpu) a) :
    ∃ n s', Ia32.run cpu.long n s = some s' ∧ BridgeReached cpu hookCallerAsm slot s s' := by
  cases cpu with
  | i386 => exact ⟨5, run_template_i386 hip hcode hclear⟩
  | x86_64 =>
    refine ⟨2, _, run_template_x86_64 hip hcode, rfl, rfl, fun r hr => ?_, rfl, fun _ _ => rfl⟩
    exact State.writeReg_reg_of_ne _ _ hr

/-! ## The code of an entry -/

/-- The hook of the entry at `slot`, or its trampoline. -/
def entryHook (cpu : Cpu) (slot : Addr cpu.bits) (e : FunchookEntry cpu.bits) : Addr cpu.bits :=
  hookOf (trampolineOffset cpu) slot e

/-- The entry is entered through its transit code. -/
def ThroughTransit (cpu : Cpu) (slot : Addr cpu.bits) (e : FunchookEntry cpu.bits) : Prop :=
  e.prehook ≠ 0 ∨ needsAbsoluteJump cpu e.targetFunc (entryHook cpu slot e) = true

instance (cpu : Cpu) (slot : Addr cpu.bits) (e : FunchookEntry cpu.bits) :
    Decidable (ThroughTransit cpu slot e) :=
  inferInstanceAs (Decidable (_ ∨ _))

/-- Where the jump at the target leads. -/
def patchDst (cpu : Cpu) (slot : Addr cpu.bits) (e : FunchookEntry cpu.bits) : Addr cpu.bits :=
  if ThroughTransit cpu slot e then slot else entryHook cpu slot e

/-- The code that `funchook_fix_code` leaves in an entry at `slot`. -/
structure EntryCode {cpu : Cpu} (b : Build cpu) (slot : Addr cpu.bits)
    (e : FunchookEntry cpu.bits) : Prop where
  size : 5 ≤ e.patchCodeSize.toNat ∧ e.patchCodeSize.toNat ≤ maxPatchCodeSize
  newCode : e.newCode = funchookWriteRelative2gJump e.targetFunc (patchDst cpu slot e) ++
    List.replicate (maxPatchCodeSize - rel2gJumpSize) nopInstruction
  reach : inReach cpu (e.targetFunc + 5) (patchDst cpu slot e) = true
  bridge : e.prehook ≠ 0 → e.transit = funchookWriteJumpWithPrehook cpu b.hookCallerAsm
  far : e.prehook = 0 → ThroughTransit cpu slot e → ∃ rest, e.transit =
    (Instr.jmpMemIp 0).encode ++ ptrBytes cpu (entryHook cpu slot e) ++ rest

theorem jumpCode_newCode (cpu : Cpu) (hookCallerAsm slot hook : Addr cpu.bits)
    (entry : FunchookEntry cpu.bits) :
    (jumpCode cpu hookCallerAsm slot hook entry).1 =
      overwrite (List.replicate maxPatchCodeSize nopInstruction) 0
        (funchookWriteRelative2gJump entry.targetFunc
          (if entry.prehook ≠ 0 ∨ needsAbsoluteJump cpu entry.targetFunc hook = true then slot
            else hook)) := by
  unfold jumpCode
  by_cases hprehook : entry.prehook ≠ 0
  · rw [if_pos hprehook, if_pos (Or.inl hprehook)]
  · rw [if_neg hprehook]
    by_cases hfar : needsAbsoluteJump cpu entry.targetFunc hook = true
    · rw [if_pos hfar, if_pos (Or.inr hfar)]
    · rw [if_neg hfar, if_neg (not_or.mpr ⟨hprehook, hfar⟩)]

theorem newCode_bytes (target dst : Addr w) :
    overwrite (List.replicate maxPatchCodeSize nopInstruction) 0
        (funchookWriteRelative2gJump target dst) =
      funchookWriteRelative2gJump target dst ++
        List.replicate (maxPatchCodeSize - rel2gJumpSize) nopInstruction := by
  have hlen : (funchookWriteRelative2gJump target dst).length = rel2gJumpSize := by
    simp [funchookWriteRelative2gJump, rel2gJumpSize]
  rw [overwrite_zero (by rw [hlen, List.length_replicate]; decide), hlen, List.drop_replicate]

/-- A hook that needs no absolute jump is in reach of the patch. -/
theorem near_reaches {cpu : Cpu} {target hook : Addr cpu.bits}
    (h : ¬ needsAbsoluteJump cpu target hook = true) : inReach cpu (target + 5) hook = true := by
  cases cpu with
  | i386 => rfl
  | x86_64 =>
    show funchookRelative2gJumpAvail target hook = true
    cases hnear : funchookRelative2gJumpAvail target hook with
    | true => rfl
    | false => exact absurd (congrArg not hnear) h

theorem jumpCode_bridge {cpu : Cpu} (hookCallerAsm slot hook : Addr cpu.bits)
    {entry : FunchookEntry cpu.bits} (hprehook : entry.prehook ≠ 0)
    (htransit : entry.transit.length = transitCodeSize cpu) :
    (jumpCode cpu hookCallerAsm slot hook entry).2 =
      funchookWriteJumpWithPrehook cpu hookCallerAsm := by
  have hlen : (funchookWriteJumpWithPrehook cpu hookCallerAsm).length = entry.transit.length := by
    rw [funchookWriteJumpWithPrehook, overwrite_length, transitCodeTemplate_length, htransit]
  rw [jumpCode, if_pos hprehook]
  show overwrite entry.transit 0 (funchookWriteJumpWithPrehook cpu hookCallerAsm) = _
  rw [overwrite_zero (Nat.le_of_eq hlen), hlen, List.drop_length, List.append_nil]

theorem absoluteJump_length (dst : Addr 64) : (funchookWriteAbsoluteJump dst).length = 14 := by
  simp [funchookWriteAbsoluteJump]

theorem jumpCode_far {cpu : Cpu} (hookCallerAsm slot : Addr cpu.bits) {hook : Addr cpu.bits}
    {entry : FunchookEntry cpu.bits} (hprehook : ¬ entry.prehook ≠ 0)
    (hfar : needsAbsoluteJump cpu entry.targetFunc hook = true)
    (htransit : entry.transit.length = transitCodeSize cpu) :
    ∃ rest, (jumpCode cpu hookCallerAsm slot hook entry).2 =
      (Instr.jmpMemIp 0).encode ++ ptrBytes cpu hook ++ rest := by
  rw [jumpCode, if_neg hprehook, if_pos hfar]
  cases cpu with
  | i386 => cases hfar
  | x86_64 =>
    have hlen : (funchookWriteAbsoluteJump hook).length ≤ entry.transit.length := by
      rw [htransit]
      exact Nat.le_trans (Nat.le_of_eq (absoluteJump_length hook)) (by decide)
    exact ⟨_, overwrite_zero hlen⟩

theorem entryCode_fixCode {cpu : Cpu} (b : Build cpu) {m : Mem cpu.bits}
    {slot func : Addr cpu.bits} {ctx : MakeTrampolineContext cpu.bits}
    {entry : FunchookEntry cpu.bits}
    (hmake : funchookMakeTrampoline cpu b.disasm.decode m func = .ok ctx)
    (havail : funchookPageAvail cpu slot func ctx.ripDisp = true)
    (htarget : entry.targetFunc = func)
    (htransit : entry.transit.length = transitCodeSize cpu) :
    EntryCode b slot (funchookFixCode cpu b.hookCallerAsm slot entry ctx.ripDisp) := by
  have hfinished := funchookMakeTrampoline_finished b.disasm hmake
  have hsize := finished_patchCodeSize hfinished
  refine ⟨?_, ?_, ?_, fun hprehook => ?_, fun hprehook hthrough => ?_⟩
  · show 5 ≤ (displacement entry.targetFunc _).toNat ∧ (displacement entry.targetFunc _).toNat ≤ _
    rw [htarget, hsize]
    exact ⟨hfinished.1, Nat.le_trans hfinished.2.1 (by decide)⟩
  · exact (jumpCode_newCode ..).trans (newCode_bytes entry.targetFunc (patchDst cpu slot _))
  · show inReach cpu (entry.targetFunc + 5) (patchDst cpu slot _) = true
    rw [patchDst]
    split
    · rw [htarget]
      exact (pageAvail_reach havail).1
    · rename_i hdirect
      exact near_reaches (not_or.mp hdirect).2
  · exact jumpCode_bridge _ _ _ hprehook htransit
  · exact jumpCode_far _ _ (not_not.mpr hprehook) (hthrough.resolve_left (not_not.mpr hprehook))
      htransit

/-- Every entry of a handle is such code. -/
theorem entryCode_of_builtFor {cpu : Cpu} {b : Build cpu} {slot : Addr cpu.bits}
    {e : FunchookEntry cpu.bits} (h : BuiltFor (platform b) slot e) : EntryCode b slot e := by
  obtain ⟨s, s', targetFunc, params, disp, trampoline, hmake, havail, he⟩ := h
  obtain ⟨ctx, hctx, hpair⟩ := exceptMap_ok hmake
  cases hpair
  rw [he]
  refine entryCode_fixCode b hctx havail rfl ?_
  exact List.length_replicate

/-! ## Dispatch -/

/-- What happens on a handle `fh` and in a memory `m` when control enters the target of the entry
at `slot`: without a prehook it reaches the hook, at once or through the transit code; with one it
reaches the bridge with the address of the transit code, from which `funchook_hook_caller` finds
the entry, calls its prehook and returns the hook. -/
structure Dispatches {cpu : Cpu} (b : Build cpu) (fh : FunchookT cpu.bits) (m : Mem cpu.bits)
    (slot : Addr cpu.bits) (e : FunchookEntry cpu.bits) : Prop where
  size : 5 ≤ e.patchCodeSize.toNat ∧ e.patchCodeSize.toNat ≤ maxPatchCodeSize
  nops : ∀ i, 5 ≤ i → i < e.patchCodeSize.toNat →
    m (e.targetFunc + BitVec.ofNat cpu.bits i) = nopInstruction
  hook : e.prehook = 0 → ∀ s : State cpu.bits, s.mem = m → s.ip = e.targetFunc →
    Ia32.run cpu.long 1 s = some (s.withIp (entryHook cpu slot e)) ∨
      (Ia32.run cpu.long 1 s = some (s.withIp slot) ∧
        Ia32.run cpu.long 2 s = some (s.withIp (entryHook cpu slot e)))
  bridge : e.prehook ≠ 0 → ∀ s : State cpu.bits, s.mem = m → s.ip = e.targetFunc →
    (∀ a, BelowStack cpu s.sp a → ¬ InRange slot (transitCodeSize cpu) a) →
      Ia32.run cpu.long 1 s = some (s.withIp slot) ∧ ∃ n s',
        Ia32.run cpu.long n (s.withIp slot) = some s' ∧ BridgeReached cpu b.hookCallerAsm slot s s'
  caller : e.prehook ≠ 0 → ∀ (callback : Addr cpu.bits → FunchookInfo cpu.bits →
      FunchookInfo cpu.bits) (basePointer : Addr cpu.bits),
    funchookHookCaller (platform b) fh callback slot basePointer =
      some ⟨e.prehook, entryInfo (platform b) slot e basePointer,
        hookOrTrampoline ((platform b).trampolineAddr slot)
          (callback e.prehook (entryInfo (platform b) slot e basePointer)).hookFunc⟩

section

variable {cpu : Cpu} {b : Build cpu} {slot : Addr cpu.bits} {e : FunchookEntry cpu.bits}

theorem newPatch_code (hcode : EntryCode b slot e) : ((platform b).newPatch e).code =
    (Instr.jmpRel (displacement (e.targetFunc + 5) (patchDst cpu slot e))).encode ++
      List.replicate (e.patchCodeSize.toNat - rel2gJumpSize) nopInstruction := by
  obtain ⟨hge, hle⟩ := hcode.size
  have hsize : (platform b).patchCodeByteSize e = e.patchCodeSize.toNat := Nat.mul_one _
  have hlen : (funchookWriteRelative2gJump e.targetFunc (patchDst cpu slot e)).length =
      rel2gJumpSize := by
    simp [funchookWriteRelative2gJump, rel2gJumpSize]
  show e.newCode.take ((platform b).patchCodeByteSize e) = _
  rw [hsize, hcode.newCode, List.take_append, List.take_of_length_le (by rw [hlen]; exact hge),
    hlen, List.take_replicate, Nat.min_eq_left (Nat.sub_le_sub_right hle _)]
  rfl

theorem newPatch_size (hcode : EntryCode b slot e) :
    ((platform b).newPatch e).code.length ≤ 2 ^ cpu.bits := by
  have hle : ((platform b).newPatch e).code.length ≤ e.newCode.length := List.length_take_le' ..
  have hnew : e.newCode.length = maxPatchCodeSize := by
    rw [hcode.newCode, List.length_append, List.length_replicate]
    simp [funchookWriteRelative2gJump, maxPatchCodeSize, rel2gJumpSize, maxInsnLen]
  rw [hnew] at hle
  exact Nat.le_trans hle (by cases cpu <;> decide)

theorem entrySize_pos (b : Build cpu) : 0 < (platform b).entrySize := by
  cases cpu <;> exact Nat.zero_lt_succ _

theorem step_patch (hcode : EntryCode b slot e) {s : State cpu.bits}
    (hinstalled : CodeInstalled (platform b) s.mem slot e) (hip : s.ip = e.targetFunc) :
    Ia32.step cpu.long s = some (s.withIp (patchDst cpu slot e)) := by
  have hpatch := hinstalled.patch
  rw [newPatch_code hcode, holds_append] at hpatch
  have hfetch : Holds s.mem s.ip
      (Instr.jmpRel (displacement (e.targetFunc + 5) (patchDst cpu slot e))).encode := by
    rw [hip]
    exact hpatch.1
  have hnext : s.next (.jmpRel (displacement (e.targetFunc + 5) (patchDst cpu slot e))) =
      e.targetFunc + 5 := by
    rw [State.next, hip]
    rfl
  rw [Ia32.step_of_holds rfl hfetch, Instr.effect, hnext, displacement_reaches hcode.reach]

theorem step_far (hcode : EntryCode b slot e) (hprehook : e.prehook = 0)
    (hthrough : ThroughTransit cpu slot e) {s : State cpu.bits}
    (hinstalled : CodeInstalled (platform b) s.mem slot e) (hip : s.ip = slot) :
    Ia32.step cpu.long s = some (s.withIp (entryHook cpu slot e)) := by
  have hlong : cpu.long = true := by
    have hfar := hthrough.resolve_left (not_not.mpr hprehook)
    cases cpu with
    | i386 => cases hfar
    | x86_64 => rfl
  obtain ⟨rest, hrest⟩ := hcode.far hprehook hthrough
  have htransit := hinstalled.transit
  rw [hrest, List.append_assoc, holds_append, holds_append, Ia32.encode_length] at htransit
  obtain ⟨hjmp, hptr, -⟩ := htransit
  have hfetch : Holds s.mem s.ip (Instr.jmpMemIp 0).encode := by
    rw [hip]
    exact hjmp
  have hnext : s.next (.jmpMemIp 0) + (0 : BitVec 32).signExtend cpu.bits =
      slot + BitVec.ofNat cpu.bits (Instr.jmpMemIp 0).size := by
    rw [State.next, hip]
    cases cpu <;> exact BitVec.add_zero _
  rw [Ia32.step_of_holds (by rw [hlong]; rfl) hfetch, Instr.effect, hnext, readPtr_of_holds hptr]

/-- **One entry.** Its code dispatches exactly where it is installed. -/
theorem dispatches_of_code {fh : FunchookT cpu.bits} {m : Mem cpu.bits}
    (hcode : EntryCode b slot e) (hinstalled : CodeInstalled (platform b) m slot e)
    (hunique : SlotsUnique (platform b) fh) (hentry : EntryAt (platform b) fh slot e) :
    Dispatches b fh m slot e := by
  refine ⟨hcode.size, fun i hge hlt => ?_, fun hprehook s hmem hip => ?_,
    fun hprehook s hmem hip hclear => ?_, fun _ callback basePointer => ?_⟩
  · have hpatch := hinstalled.patch
    rw [newPatch_code hcode, holds_append, Ia32.encode_length] at hpatch
    have hbyte := hpatch.2.byte (i := i - rel2gJumpSize) (by
      rw [List.length_replicate]
      exact Nat.sub_lt_sub_right hge hlt)
    have hsum : (Instr.jmpRel (displacement (e.targetFunc + 5) (patchDst cpu slot e))).size +
        (i - rel2gJumpSize) = i := Nat.add_sub_cancel' hge
    rwa [List.getElem_replicate, BitVec.add_assoc, ← BitVec.ofNat_add, hsum] at hbyte
  · rw [← hmem] at hinstalled
    have hstep := step_patch hcode hinstalled hip
    by_cases hthrough : ThroughTransit cpu slot e
    · rw [patchDst, if_pos hthrough] at hstep
      refine Or.inr ⟨Ia32.run_one hstep, ?_⟩
      have hfar := step_far hcode hprehook hthrough (s := s.withIp slot) hinstalled rfl
      rw [Ia32.run_succ hstep, Ia32.run_one hfar, State.withIp_withIp]
    · rw [patchDst, if_neg hthrough] at hstep
      exact Or.inl (Ia32.run_one hstep)
  · rw [← hmem] at hinstalled
    have hstep := step_patch hcode hinstalled hip
    have hthrough : ThroughTransit cpu slot e := Or.inl hprehook
    rw [patchDst, if_pos hthrough] at hstep
    refine ⟨Ia32.run_one hstep, ?_⟩
    have htransit := hinstalled.transit
    rw [hcode.bridge hprehook] at htransit
    obtain ⟨n, s', hrun, hreached⟩ := run_template (s := s.withIp slot) rfl htransit hclear
    exact ⟨n, s', hrun, hreached.ip, hreached.transit, hreached.regs, hreached.flags,
      hreached.mem⟩
  · exact funchookHookCaller_of_entryAt hunique hentry callback basePointer

end

/-- **Dispatch.** After any run of prepares and a successful install, when the patched ranges do
not meet each other and meet the pages of the handle in trampolines at most, every entry of the
handle dispatches exactly. -/
theorem dispatch_exact {cpu : Cpu} (b : Build cpu) {s₀ : World cpu.bits}
    {st : HandleState cpu.bits} (hrun : PrepareRun (platform b) s₀ st) (os : List OsAnswer)
    (hrv : (funchookInstallInternal (platform b) st.fh st.world os).rv = errorSuccess)
    (hapart : st.fh.entries.Pairwise (PatchesApart (platform b)))
    (honly : PatchesTrampolinesOnly (platform b) st.fh) (slot : Addr cpu.bits)
    (e : FunchookEntry cpu.bits)
    (he : EntryAt (platform b) (funchookInstallInternal (platform b) st.fh st.world os).fh slot e) :
    Dispatches b (funchookInstallInternal (platform b) st.fh st.world os).fh
      (funchookInstallInternal (platform b) st.fh st.world os).world.bytes slot e := by
  have hinv := entriesInv_run hrun
  have hbefore : ∀ slot e, EntryAt (platform b)
      (funchookInstallInternal (platform b) st.fh st.world os).fh slot e →
        EntryAt (platform b) st.fh slot e :=
    fun _ _ => (install_entryAt st.fh st.world os).mp
  have hcode := entryCode_of_builtFor (hinv.built slot e (hbefore slot e he))
  have hunique := hinv.pages.slotsUnique (entrySize_pos b)
  exact dispatches_of_code hcode
    (install_code hinv.pages hapart honly hrv (hbefore slot e he) (newPatch_size hcode))
    (fun slot e e' he he' => hunique slot e e' (hbefore slot e he) (hbefore slot e' he')) he

/-- Two prepares on one page: the second entry has a prehook and no hook. -/
def samplePrehooked : HandleState 64 :=
  (((HandleState.start sampleWorld).step samplePlatform
    (.prepare 0x401000 0x402000 ⟨.ok 0x500000, .ok⟩)).bind fun st => st.step samplePlatform
      (.prepareWithParams 0x401100 ⟨0, 0x402100, 0, 0⟩
        ⟨.error ⟨errorMemoryAllocation, "mmap"⟩, .ok⟩)).get
    (by decide +kernel)

/-- A test of `PatchesApart`. -/
def patchesDistant (P : Platform w) (e e' : FunchookEntry w) : Bool :=
  decide (P.patchCodeByteSize e ≤ (e'.targetFunc - e.targetFunc).toNat ∧
    P.patchCodeByteSize e' ≤ (e.targetFunc - e'.targetFunc).toNat)

theorem patchesApart_of_distant {P : Platform w} {es : List (FunchookEntry w)}
    (h : es.Pairwise fun e e' => patchesDistant P e e' = true) : es.Pairwise (PatchesApart P) :=
  h.imp fun hdistant =>
    rangesDisjoint_of_distance (of_decide_eq_true hdistant).1 (of_decide_eq_true hdistant).2

theorem dispatch_exact_sample :
    samplePrehooked.fh.entries.length = 2 ∧
      ∀ slot e, EntryAt samplePlatform
        (funchookInstallInternal samplePlatform samplePrehooked.fh samplePrehooked.world []).fh
        slot e →
        Dispatches (sampleBuild .x86_64)
          (funchookInstallInternal samplePlatform samplePrehooked.fh samplePrehooked.world []).fh
          (funchookInstallInternal samplePlatform samplePrehooked.fh
            samplePrehooked.world []).world.bytes slot e := by
  have hrun : PrepareRun samplePlatform sampleWorld samplePrehooked := by
    have hfirst : PrepareRun samplePlatform sampleWorld
        ⟨sampleHandle.fh, sampleHandle.world, false⟩ :=
      .call .start (.prepare 0x401000 0x402000 ⟨.ok 0x500000, .ok⟩) rfl ⟨sample_fresh, rfl⟩
    exact hfirst.call (.prepareWithParams 0x401100 ⟨0, 0x402100, 0, 0⟩
      ⟨.error ⟨errorMemoryAllocation, "mmap"⟩, .ok⟩) rfl ⟨fun p hp => (by cases hp), rfl⟩
  have houtside : ∀ e ∈ samplePrehooked.fh.entries, ∀ page ∈ samplePrehooked.fh.pageList,
      samplePlatform.patchCodeByteSize e ≤ (page.addr - e.targetFunc).toNat ∧
        samplePlatform.pageSize ≤ (e.targetFunc - page.addr).toNat := by
    decide +kernel
  refine ⟨by decide +kernel, dispatch_exact (sampleBuild .x86_64) hrun [] (by decide +kernel)
    (patchesApart_of_distant (by decide +kernel)) fun e he page hpage a hta ha => ?_⟩
  obtain ⟨hbefore, hbehind⟩ := houtside e he page hpage
  exact absurd ha (rangesDisjoint_of_distance hbefore hbehind a hta)

/-! ## A function in the transit code -/

/-- The sample disassembler, for code that may start with `lea disp32(%rip),%r11`. -/
def leaDisassembler : Disassembler 64 where
  decode := fun m func =>
    if m func = 0x4c ∧ m (func + 1) = 0x8d ∧ m (func + 2) = 0x1d then
      let disp : BitVec 64 := (readWord 4 m (func + 3) : BitVec 32).signExtend 64
      .ok [⟨7, func, 0, ⟨func + 7 + disp, disp, 3, 32⟩, ⟨0, 0, 0, 0⟩⟩]
    else sampleDisassembler.decode m func
  size_bounds := by
    intro m func insns h
    split at h
    · cases h
      simp
    · exact sampleDisassembler.size_bounds h
  stop_ne_nop := by
    intro m func insns h hlt
    split at h
    · cases h
      exact absurd hlt (by simp [totalSize, rel2gJumpSize])
    · exact sampleDisassembler.stop_ne_nop h hlt

def leaBuild : Build .x86_64 := { sampleBuild .x86_64 with disasm := leaDisassembler }

def leaPlatform : Platform 64 := platform leaBuild

def leaPrepared : HandleState 64 :=
  ((HandleState.start sampleWorld).step leaPlatform
    (.prepareWithParams 0x401000 ⟨0x402000, 0x402100, 0, 0⟩ ⟨.ok 0x500000, .ok⟩)).get
      (by decide +kernel)

/-- The transit code of the first entry is hooked as if it were a function of the program. -/
def transitHooked : HandleState 64 :=
  (leaPrepared.step leaPlatform
    (.prepare 0x500010 0x402000 ⟨.error ⟨errorMemoryAllocation, "mmap"⟩, .ok⟩)).get
      (by decide +kernel)

def transitHookedInstalled : CallResult 64 :=
  funchookInstallInternal leaPlatform transitHooked.fh transitHooked.world []

theorem transit_hooked : PrepareRun leaPlatform sampleWorld transitHooked := by
  have hfirst : PrepareRun leaPlatform sampleWorld leaPrepared :=
    .call .start (.prepareWithParams 0x401000 ⟨0x402000, 0x402100, 0, 0⟩ ⟨.ok 0x500000, .ok⟩) rfl
      ⟨sample_fresh, by rw [leaPrepared, Option.some_get]⟩
  exact hfirst.call (.prepare 0x500010 0x402000 ⟨.error ⟨errorMemoryAllocation, "mmap"⟩, .ok⟩) rfl
    ⟨fun p hp => (by cases hp), by rw [transitHooked, Option.some_get]⟩

/-- From the transit code the run goes to the hook of the second entry, and ends there. -/
theorem transitHooked_run {n : ℕ} {s' : State 64} (hrun : Ia32.run true n
    (State.initial transitHookedInstalled.world.bytes 0x500010) = some s') :
    s'.ip = 0x500010 ∨ s'.ip = 0x402000 := by
  have hfirst : (Ia32.step true (State.initial transitHookedInstalled.world.bytes 0x500010)).map
      State.ip = some 0x402000 := by
    decide +kernel
  have hsecond : ((Ia32.step true (State.initial transitHookedInstalled.world.bytes 0x500010)).bind
      (Ia32.step true)).isNone := by
    decide +kernel
  obtain ⟨s₁, hstep, hip⟩ := Option.map_eq_some_iff.mp hfirst
  rw [hstep, Option.bind_some, Option.isNone_iff_eq_none] at hsecond
  match n with
  | 0 => exact Or.inl (Option.some.inj hrun ▸ rfl)
  | 1 =>
    rw [Ia32.run_one hstep] at hrun
    exact Or.inr (Option.some.inj hrun ▸ hip)
  | n + 2 =>
    rw [Ia32.run_succ hstep, Ia32.run, hsecond] at hrun
    cases hrun

/-- When the target of one entry is the transit code of another, the other is not dispatched: its
jump leads to the hook of the first. -/
theorem transit_hooked_not_dispatched : PrepareRun leaPlatform sampleWorld transitHooked ∧
    transitHookedInstalled.rv = errorSuccess ∧
    transitHooked.fh.entries.Pairwise (PatchesApart leaPlatform) ∧
    ∃ slot e, EntryAt leaPlatform transitHookedInstalled.fh slot e ∧
      ¬ Dispatches leaBuild transitHookedInstalled.fh transitHookedInstalled.world.bytes
        slot e := by
  refine ⟨transit_hooked, by decide +kernel, patchesApart_of_distant (by decide +kernel), ?_⟩
  have hentry : (entryAtAddr leaPlatform transitHookedInstalled.fh.pageList 0x500010).map
      (fun e => (e.targetFunc, decide (e.prehook = 0))) = some (0x401000, false) := by
    decide +kernel
  obtain ⟨e, he, hfields⟩ := Option.map_eq_some_iff.mp hentry
  obtain ⟨htarget, hprehook⟩ := Prod.mk.inj hfields
  refine ⟨0x500010, e, entryAt_of_entryAtAddr he, fun hdispatches => ?_⟩
  obtain ⟨-, n, s', hrun, hreached⟩ := hdispatches.bridge (of_decide_eq_false hprehook)
    (State.initial transitHookedInstalled.world.bytes 0x401000) rfl htarget.symm
    fun a ha => absurd ha (Nat.not_lt_zero _)
  have hbridge : s'.ip = 0x403000 := hreached.ip
  rcases transitHooked_run hrun with hip | hip
  · rw [hip] at hbridge
    cases hbridge
  · rw [hip] at hbridge
    cases hbridge

end Funchook.X86
