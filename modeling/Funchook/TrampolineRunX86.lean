import Funchook.TrampolineX86
import Funchook.Lib.Ia32Machine

/-!
# Running a trampoline of x86 and x86-64

The moved instructions, one after the other at their own addresses, against the trampoline. Every
instruction keeps its offset, so one step of the trampoline stands for one instruction, and the
state is the same wherever control leaves. What the instructions do is not fixed: the machine need
only agree with the disassembler about where the PC-relative operands are.
-/

namespace Funchook.X86

open ByteMemory
open ByteCode (Machine SameOff)
open Ia32 (Instr State)

variable {w : ℕ} {σ : Type}

/-! ## The moved instructions -/

/-- The bytes of an instruction of `size` bytes at the offset `k`. -/
def insnBytes (m : Mem w) (func : Addr w) (k size : ℕ) : List Byte :=
  readBytes m (func + BitVec.ofNat w k) size

/-- The machine agrees with the disassembler: the instructions it reports are instructions, and
their PC-relative operands are the 32-bit fields reported. The entry of a field that leads to the
address 0 counts as unused, so there is none. -/
structure FieldsAgree (M : Machine w σ) (m : Mem w) (func : Addr w) (insns : List (Insn w)) :
    Prop where
  insn : ∀ k insn, InsnAt insns k insn → M.IsInsn (insnBytes m func k insn.size)
  absolute : ∀ k insn, InsnAt insns k insn → insn.relDisp.size = 0 → insn.relImm.size = 0 →
    M.Absolute (insnBytes m func k insn.size)
  relative : ∀ k insn rel, MovedField insns k insn rel →
    M.Relative (insnBytes m func k insn.size) rel.offset
  target : ∀ k insn rel, MovedField insns k insn rel →
    absoluteTarget m func k insn.size rel.offset ≠ 0

/-- `0xe9` with 32 bits is a jump relative to its end. -/
structure JumpsNear (M : Machine w σ) : Prop where
  insn : ∀ disp : BitVec 32, M.IsInsn (0xe9 :: leBytes 4 disp)
  exec : ∀ (disp : BitVec 32) base next s, M.exec (0xe9 :: leBytes 4 disp) base next s =
    some (M.withIp s (base + disp.signExtend w))

/-- Where the 32 bits behind `ff 25` lead: an address on i386, a displacement on x86-64. -/
def indirectSlot : (cpu : Cpu) → Addr cpu.bits → BitVec 32 → Addr cpu.bits
  | .i386, _, disp => disp
  | .x86_64, next, disp => next + disp.signExtend Cpu.x86_64.bits

/-- `ff 25` with 32 bits is a jump to the pointer in memory. -/
structure JumpsThroughMemory (cpu : Cpu) {σ : Type} (M : Machine cpu.bits σ) : Prop where
  insn : ∀ disp : BitVec 32, M.IsInsn (0xff :: 0x25 :: leBytes 4 disp)
  exec : ∀ (disp : BitVec 32) base next s, M.exec (0xff :: 0x25 :: leBytes 4 disp) base next s =
    some (M.withIp s (readPtr (M.mem s) (indirectSlot cpu base disp)))

/-- The first `n` bytes of the function from the instruction at `k` on, each run as at its own
address with what follows it in the trampoline. Control leaves from one of them, or goes on behind
the patch; the memory stays `intact` in between. -/
inductive MovedRun (M : Machine w σ) (m : Mem w) (func tramp : Addr w) (insns : List (Insn w))
    (intact : Mem w → Prop) (n : ℕ) : ℕ → σ → σ → Prop
  | leaves {k : ℕ} {insn : Insn w} {s t : σ} : InsnAt insns k insn → k < n →
      M.exec (insnBytes m func k insn.size) (func + BitVec.ofNat w (k + insn.size))
        (tramp + BitVec.ofNat w (k + insn.size)) s = some t →
          MovedRun M m func tramp insns intact n k s t
  | next {k : ℕ} {insn : Insn w} {s t u : σ} : InsnAt insns k insn → k < n →
      M.exec (insnBytes m func k insn.size) (func + BitVec.ofNat w (k + insn.size))
        (tramp + BitVec.ofNat w (k + insn.size)) s = some t →
          M.ip t = tramp + BitVec.ofNat w (k + insn.size) → intact (M.mem t) →
            MovedRun M m func tramp insns intact n (k + insn.size) t u →
              MovedRun M m func tramp insns intact n k s u
  | behind (s : σ) : MovedRun M m func tramp insns intact n n s
      (M.withIp s (func + BitVec.ofNat w n))

/-! ## One instruction of the trampoline -/

section Step

variable {m : Mem w} {func tramp : Addr w} {insns : List (Insn w)} {code : List Byte} {n : ℕ}

/-- The copy of the instruction at `k` differs from it in its field at most. -/
theorem copy_sameOff (hexact : RelocatedExactly m func tramp insns code n)
    (hreport : ∀ insn ∈ insns, InsnReported m insn) {m' : Mem w} (hcode : Holds m' tramp code)
    {k : ℕ} {insn : Insn w} (hat : InsnAt insns k insn) (hend : k + insn.size ≤ n) {o : ℕ}
    (hfield : ∀ rel, MovedField insns k insn rel → rel.offset = o) :
    SameOff o (insnBytes m func k insn.size) (insnBytes m' tramp k insn.size) := by
  refine ⟨by simp [insnBytes], fun i hout => ?_⟩
  rcases Nat.lt_or_ge i insn.size with hi | hi
  · have hsame := hexact.same (k + i) (by omega) fun j insn' rel hmoved _ => by
      rcases insnAt_cases hreport hat hmoved.1 with hlt | ⟨rfl, rfl⟩ | hge
      · -- a field of an earlier instruction ends before `k`
        rcases insnAt_cases hreport hmoved.1 hat with hlt' | ⟨rfl, -⟩ | hge'
        · omega
        · omega
        · have hrel := hmoved.2.2.1
          have hsize := hmoved.2.2.2
          have hinsn := hreport insn' (insnAt_mem hmoved.1)
          rcases hrel with rfl | rfl
          · have := (hinsn.disp (by omega)).inside
            omega
          · have := (hinsn.imm (by omega)).inside
            omega
      · have := hfield rel hmoved
        omega
      · omega
    obtain ⟨hlt, hbyte⟩ := List.getElem?_eq_some_iff.mp hsame
    have hm' := hcode.byte hlt
    rw [List.getElem?_eq_getElem (by simpa [insnBytes] using hi),
      List.getElem?_eq_getElem (by simpa [insnBytes] using hi)]
    simp only [insnBytes, getElem_readBytes, BitVec.add_assoc, ← BitVec.ofNat_add]
    rw [hm', hbyte]
  · rw [List.getElem?_eq_none (by simpa [insnBytes] using hi),
      List.getElem?_eq_none (by simpa [insnBytes] using hi)]

/-- An instruction that was moved has no field, or one of 32 bits. -/
def FieldOrNone (insns : List (Insn w)) (n : ℕ) : Prop :=
  ∀ k insn, InsnAt insns k insn → k < n → k + insn.size ≤ n ∧
    (insn.relDisp.size = 0 ∧ insn.relImm.size = 0 ∨ ∃ rel, MovedField insns k insn rel)

/-- Two fields of one instruction are the same. -/
theorem movedField_unique (hreport : ∀ insn ∈ insns, InsnReported m insn) {k : ℕ} {insn : Insn w}
    {rel rel' : RipRelative w} (h : MovedField insns k insn rel)
    (h' : MovedField insns k insn rel') : rel' = rel := by
  obtain ⟨hat, -, hrel, hsize⟩ := h
  obtain ⟨-, -, hrel', hsize'⟩ := h'
  have hone := (hreport insn (insnAt_mem hat)).one_field
  rcases hrel with rfl | rfl <;> rcases hrel' with rfl | rfl
  · rfl
  · omega
  · omega
  · rfl

/-- **One instruction.** A step of the trampoline does what the instruction does at its own
address. -/
theorem trampoline_step {M : Machine w σ} (hagree : FieldsAgree M m func insns)
    (hexact : RelocatedExactly m func tramp insns code n)
    (hreport : ∀ insn ∈ insns, InsnReported m insn) (hfields : FieldOrNone insns n) {s : σ}
    (hcode : Holds (M.mem s) tramp code) {k : ℕ} {insn : Insn w} (hat : InsnAt insns k insn)
    (hk : k < n) :
    M.step (M.withIp s (tramp + BitVec.ofNat w k)) =
      M.exec (insnBytes m func k insn.size) (func + BitVec.ofNat w (k + insn.size))
        (tramp + BitVec.ofNat w (k + insn.size)) s := by
  have hlen : (insnBytes m func k insn.size).length = insn.size := readBytes_length ..
  have hholds : Holds (M.mem s) (tramp + BitVec.ofNat w k)
      (insnBytes (M.mem s) tramp k insn.size) := by
    rw [Holds, insnBytes, readBytes_length]
  have hnext : tramp + BitVec.ofNat w k + BitVec.ofNat w (insnBytes m func k insn.size).length =
      tramp + BitVec.ofNat w (k + insn.size) := by
    rw [hlen, BitVec.add_assoc, ← BitVec.ofNat_add]
  obtain ⟨hend, hnone | ⟨rel, hmoved⟩⟩ := hfields k insn hat hk
  · have hnofield : ∀ rel, ¬ MovedField insns k insn rel := by
      rintro rel ⟨-, -, rfl | rfl, hsize⟩ <;> omega
    -- without a field the copy has the same bytes
    have hsame : insnBytes (M.mem s) tramp k insn.size = insnBytes m func k insn.size :=
      List.ext_getElem? fun i => by
        rcases Nat.lt_or_ge i insn.size with hi | hi
        · exact (copy_sameOff hexact hreport hcode hat hend
            fun rel hmoved => absurd hmoved (hnofield rel)).byte i (Or.inl hi)
        · rw [List.getElem?_eq_none (by simpa [insnBytes] using hi),
            List.getElem?_eq_none (by simpa [insnBytes] using hi)]
    rw [hsame] at hholds
    rw [Machine.step_copied (hagree.insn k insn hat)
      (hagree.absolute k insn hat hnone.1 hnone.2) hholds
      (func + BitVec.ofNat w (k + insn.size)), hnext]
  · have hne := hagree.target k insn rel hmoved
    have hinside : rel.offset + 4 ≤ insn.size := by
      have hinsn := hreport insn (insnAt_mem hat)
      obtain ⟨-, -, hrel, hsize⟩ := hmoved
      rcases hrel with rfl | rfl
      · have := (hinsn.disp (by omega)).inside
        omega
      · have := (hinsn.imm (by omega)).inside
        omega
    have hword : bufWord 4 (insnBytes (M.mem s) tramp k insn.size) rel.offset =
        bufWord 4 code (k + rel.offset) := by
      have hcodeLen : k + insn.size ≤ code.length := by
        have := (List.getElem?_eq_some_iff.mp hexact.jump).1
        omega
      refine ByteMemory.leWord_congr fun i hi => ?_
      rw [List.getElem?_eq_getElem (by rw [insnBytes, readBytes_length]; omega),
        List.getElem?_eq_getElem (by omega), Option.getD_some, Option.getD_some]
      simp only [insnBytes, getElem_readBytes, BitVec.add_assoc, ← BitVec.ofNat_add]
      rw [hcode.byte (by omega)]
      simp only [Nat.add_assoc]
    have htarget := hexact.field k insn rel hmoved hne
    rw [Machine.step_relocated (hagree.relative k insn rel hmoved)
      (copy_sameOff hexact hreport hcode hat hend fun rel' hmoved' =>
        congrArg RipRelative.offset (movedField_unique hreport hmoved hmoved')) hholds
      (func + BitVec.ofNat w (k + insn.size)) ?_, hnext]
    rw [hnext, hword, htarget, absoluteTarget, insnBytes, ← readWord_eq_bufWord hinside]
    simp only [BitVec.ofNat_add, BitVec.add_assoc]

/-- The jump behind the moved instructions leads to the rest of the function. -/
theorem trampoline_back {M : Machine w σ} (hjump : JumpsNear M)
    (hexact : RelocatedExactly m func tramp insns code n) (hlen : n + 5 ≤ code.length) {s : σ}
    (hcode : Holds (M.mem s) tramp code) :
    M.step (M.withIp s (tramp + BitVec.ofNat w n)) =
      some (M.withIp s (func + BitVec.ofNat w n)) := by
  have hbyte : ∀ i (hi : n + i < code.length),
      M.mem s (tramp + BitVec.ofNat w n + BitVec.ofNat w i) = code[n + i] := fun i hi => by
    rw [BitVec.add_assoc, ← BitVec.ofNat_add, hcode.byte hi]
  have hopcode : code[n] = 0xe9 := (List.getElem?_eq_some_iff.mp hexact.jump).2
  have hholds : Holds (M.mem s) (tramp + BitVec.ofNat w n)
      (0xe9 :: leBytes 4 (bufWord 4 code (n + 1))) := by
    refine holds_of_bytes fun i hi => ?_
    rw [List.length_cons, leBytes_length] at hi
    rw [hbyte i (by omega)]
    cases i with
    | zero => exact hopcode
    | succ i =>
      simp only [List.getElem_cons_succ, bufWord, leBytes_leWord, List.getElem_map,
        List.getElem_range]
      rw [List.getElem?_eq_getElem (by omega), Option.getD_some]
      congr 1
      omega
  have hback := hexact.back
  rw [Machine.step_of_holds (hjump.insn _) (by rwa [M.mem_withIp, M.ip_withIp]), M.exec_withIp,
    hjump.exec, M.ip_withIp, List.length_cons, leBytes_length, BitVec.add_assoc tramp,
    ← BitVec.ofNat_add, hback]

end Step

/-! ## The run -/

/-- What is moved by `funchookMakeTrampoline` has no field, or one of 32 bits. -/
theorem made_fieldOrNone {cpu : Cpu} {disasm : Disasm w} {m : Mem w} {func : Addr w}
    {insns : List (Insn w)} {ctx : MakeTrampolineContext w}
    (hcode : CodeReported cpu disasm m func insns)
    (hmake : funchookMakeTrampoline cpu disasm m func = .ok ctx) :
    FieldOrNone insns ctx.src := by
  obtain ⟨j, last, hlast, hdone, hbefore⟩ := funchookMakeTrampoline_done hcode hmake
  have hsrc := hdone.src
  intro k insn hat hk
  rcases insnAt_cases hcode.insn hlast hat with hlt | ⟨rfl, rfl⟩ | hge
  · refine ⟨?_, Or.inl (hbefore k insn hat hlt)⟩
    rcases insnAt_cases hcode.insn hat hlast with hlt' | ⟨rfl, -⟩ | hge'
    · omega
    · omega
    · omega
  · refine ⟨Nat.le_of_eq hsrc.symm, ?_⟩
    rcases hdone.disp_size with hdisp | hdisp
    · rcases hdone.imm_size with himm | himm
      · exact Or.inl ⟨hdisp, himm⟩
      · exact Or.inr ⟨insn.relImm, hat, hdone.starts, Or.inr rfl, himm⟩
    · exact Or.inr ⟨insn.relDisp, hat, hdone.starts, Or.inl rfl, hdisp⟩
  · omega

/-- The code that `funchookFixCode` leaves at the trampoline of an entry where
`funchookPageAvail` holds. -/
theorem made_relocated {cpu : Cpu} {disasm : Disasm cpu.bits} {m : Mem cpu.bits}
    {func slot : Addr cpu.bits} {insns : List (Insn cpu.bits)}
    {ctx : MakeTrampolineContext cpu.bits} (hcode : CodeReported cpu disasm m func insns)
    (hmake : funchookMakeTrampoline cpu disasm m func = .ok ctx)
    (havail : funchookPageAvail cpu slot func ctx.ripDisp = true) :
    RelocatedExactly m func (slot + BitVec.ofNat cpu.bits (trampolineOffset cpu)) insns
        (fixedCode (slot + BitVec.ofNat cpu.bits (trampolineOffset cpu)) ctx) ctx.src ∧
      ctx.src + 5 ≤ ctx.trampoline.length := by
  obtain ⟨k, last, hat, hdone, hbefore⟩ := funchookMakeTrampoline_done hcode hmake
  obtain ⟨-, hreach₀, hreach₁⟩ := pageAvail_reach havail
  have hle := (hcode.insn last (insnAt_mem hat)).size_le
  have hsrc := hdone.src
  have hk := hdone.starts
  have hlen := hdone.length
  simp only [trampolineSize, rel2gJumpSize, maxInsnLen] at hlen
  have hroom : ctx.src + 5 ≤ ctx.trampoline.length := by omega
  refine ⟨fixedCode_relocated hdone hcode.insn hcode.contiguous hat hbefore hroom ?_, hroom⟩
  rintro d (rfl | ⟨rfl, hne⟩)
  · exact displacement_reaches hreach₀
  · exact displacement_reaches (hreach₁ hne)

/-- **The run.** Code that relocates the moved instructions exactly runs as they do. -/
theorem steps_of_movedRun {m : Mem w} {func tramp : Addr w} {insns : List (Insn w)}
    {code : List Byte} {n : ℕ} {M : Machine w σ} (hagree : FieldsAgree M m func insns)
    (hjump : JumpsNear M) (hexact : RelocatedExactly m func tramp insns code n)
    (hroom : n + 5 ≤ code.length) (hreport : ∀ insn ∈ insns, InsnReported m insn)
    (hfields : FieldOrNone insns n) {k : ℕ} {s t : σ}
    (hrun : MovedRun M m func tramp insns (fun mem => Holds mem tramp code) n k s t)
    (hloaded : Holds (M.mem s) tramp code) :
    M.Steps (M.withIp s (tramp + BitVec.ofNat w k)) t := by
  induction hrun with
  | leaves hat hk hexec =>
    refine .single ?_
    rw [trampoline_step hagree hexact hreport hfields hloaded hat hk, hexec]
  | next hat hk hexec hip hintact _ ih =>
    refine .head ?_ (ih hintact)
    rw [← hip, M.withIp_self, trampoline_step hagree hexact hreport hfields hloaded hat hk, hexec]
  | behind s => exact .single (trampoline_back hjump hexact hroom hloaded)

theorem fixedCode_length {cpu : Cpu} (tramp : Addr cpu.bits)
    (ctx : MakeTrampolineContext cpu.bits) :
    (fixedCode tramp ctx).length = ctx.trampoline.length := by
  simp [fixedCode, fixDisplacement_length, apply_ite]

/-- The trampoline of an entry after `funchook_fix_code`. -/
theorem fixCode_fixedCode {cpu : Cpu} (hookCallerAsm slot : Addr cpu.bits)
    {entry : FunchookEntry cpu.bits} {ctx : MakeTrampolineContext cpu.bits}
    (htrampoline : entry.trampoline = ctx.trampoline) :
    (funchookFixCode cpu hookCallerAsm slot entry ctx.ripDisp).trampoline =
      fixedCode (slot + BitVec.ofNat cpu.bits (trampolineOffset cpu)) ctx := by
  rw [fixedCode, ← htrampoline]
  rfl

/-- **Running the trampoline.** The trampoline does what the moved instructions do in turn at their
own addresses, wherever control leaves, and goes on behind the patch in the same state. -/
theorem trampoline_reproduces {cpu : Cpu} {disasm : Disasm cpu.bits} {m : Mem cpu.bits}
    {func slot : Addr cpu.bits} {insns : List (Insn cpu.bits)}
    {ctx : MakeTrampolineContext cpu.bits} {entry : FunchookEntry cpu.bits}
    {M : Machine cpu.bits σ} (hcode : CodeReported cpu disasm m func insns)
    (hmake : funchookMakeTrampoline cpu disasm m func = .ok ctx)
    (havail : funchookPageAvail cpu slot func ctx.ripDisp = true)
    (htrampoline : entry.trampoline = ctx.trampoline) (hookCallerAsm : Addr cpu.bits)
    (hagree : FieldsAgree M m func insns) (hjump : JumpsNear M) {k : ℕ} {s t : σ}
    (hrun : MovedRun M m func (slot + BitVec.ofNat cpu.bits (trampolineOffset cpu)) insns
      (fun mem => Holds mem (slot + BitVec.ofNat cpu.bits (trampolineOffset cpu))
        (funchookFixCode cpu hookCallerAsm slot entry ctx.ripDisp).trampoline) ctx.src k s t)
    (hloaded : Holds (M.mem s) (slot + BitVec.ofNat cpu.bits (trampolineOffset cpu))
      (funchookFixCode cpu hookCallerAsm slot entry ctx.ripDisp).trampoline) :
    M.Steps (M.withIp s (slot + BitVec.ofNat cpu.bits (trampolineOffset cpu) +
      BitVec.ofNat cpu.bits k)) t := by
  have hfixed := fixCode_fixedCode hookCallerAsm slot htrampoline
  obtain ⟨hexact, hroom⟩ := made_relocated hcode hmake havail
  rw [hfixed] at hloaded
  simp only [hfixed] at hrun
  exact steps_of_movedRun hagree hjump hexact (by rwa [fixedCode_length]) hcode.insn
    (made_fieldOrNone hcode hmake) hrun hloaded

/-! ## A sample run -/

/-- The machine of 64-bit mode. -/
theorem machine_jumpsNear (w : ℕ) : JumpsNear (Ia32.machine w) where
  insn disp := Ia32.machine_isInsn (i := .jmpRel disp) rfl
  exec disp base next s := Ia32.machine_exec (i := .jmpRel disp) rfl base next s

theorem machine_jumpsThroughMemory : JumpsThroughMemory .x86_64 (Ia32.machine 64) where
  insn disp := Ia32.machine_isInsn (i := .jmpMemIp disp) rfl
  exec disp base next s := Ia32.machine_exec (i := .jmpMemIp disp) rfl base next s

theorem sampleJumpInsns_cases {k : ℕ} {insn : Insn 64} (h : InsnAt sampleJumpInsns k insn) :
    (k = 0 ∨ k = 1) ∧ insn.size = 1 ∧ insn.relDisp.size = 0 ∧ insn.relImm.size = 0 ∨
      k = 2 ∧ insn = ⟨5, 0x401202, 0x402000, ⟨0, 0, 0, 0⟩, ⟨0x402000, 0xdf9, 1, 32⟩⟩ := by
  rcases insnAt_cons_cases h with ⟨rfl, rfl⟩ | ⟨j₁, rfl, h₁⟩
  · exact Or.inl ⟨Or.inl rfl, rfl, rfl, rfl⟩
  rcases insnAt_cons_cases h₁ with ⟨rfl, rfl⟩ | ⟨j₂, rfl, h₂⟩
  · exact Or.inl ⟨Or.inr rfl, rfl, rfl, rfl⟩
  rcases insnAt_cons_cases h₂ with ⟨rfl, rfl⟩ | ⟨j₃, rfl, pre, post, hnil, -⟩
  · exact Or.inr ⟨rfl, rfl⟩
  · cases pre <;> cases hnil

theorem insnBytes_sampleJump_nop {k : ℕ} (h : k = 0 ∨ k = 1) :
    insnBytes sampleJump 0x401200 k 1 = Instr.nop.encode := by
  obtain rfl | rfl := h <;> decide +kernel

theorem insnBytes_sampleJump_jump :
    insnBytes sampleJump 0x401200 2 5 = (Instr.jmpRel 0xdf9).encode := by
  decide +kernel

/-- The 32-bit field of the sample is that of its jump. -/
theorem movedField_sampleJump {k : ℕ} {insn : Insn 64} {rel : RipRelative 64}
    (h : MovedField sampleJumpInsns k insn rel) :
    k = 2 ∧ insn.size = 5 ∧ rel = ⟨0x402000, 0xdf9, 1, 32⟩ := by
  obtain ⟨hat, -, hrel, hsize⟩ := h
  rcases sampleJumpInsns_cases hat with ⟨-, -, hdisp, himm⟩ | ⟨rfl, rfl⟩
  · rcases hrel with rfl | rfl <;> omega
  · rcases hrel with rfl | rfl
    · cases hsize
    · exact ⟨rfl, rfl, rfl⟩

theorem sampleJump_fieldsAgree :
    FieldsAgree (Ia32.machine 64) sampleJump 0x401200 sampleJumpInsns where
  insn k insn hat := by
    rcases sampleJumpInsns_cases hat with ⟨hk, hsize, -, -⟩ | ⟨rfl, rfl⟩
    · rw [hsize, insnBytes_sampleJump_nop hk]
      exact Ia32.machine_isInsn rfl
    · rw [insnBytes_sampleJump_jump]
      exact Ia32.machine_isInsn rfl
  absolute k insn hat _ himm := by
    rcases sampleJumpInsns_cases hat with ⟨hk, hsize, -, -⟩ | ⟨rfl, rfl⟩
    · rw [hsize, insnBytes_sampleJump_nop hk]
      exact Ia32.machine_absolute rfl fun _ _ _ _ => rfl
    · cases himm
  relative k insn rel hmoved := by
    obtain ⟨rfl, hsize, rfl⟩ := movedField_sampleJump hmoved
    rw [hsize, insnBytes_sampleJump_jump]
    exact Ia32.jmpRel_relative 0xdf9
  target k insn rel hmoved := by
    obtain ⟨rfl, hsize, rfl⟩ := movedField_sampleJump hmoved
    rw [hsize]
    decide +kernel

/-- The code of the sample with its trampoline. -/
def sampleJumpLoaded : Mem 64 := write sampleJump (0x500010 + 72) sampleJumpFixed.trampoline

theorem sampleJumpLoaded_holds :
    Holds sampleJumpLoaded (0x500010 + 72) sampleJumpFixed.trampoline :=
  holds_write sampleJump _ (by decide +kernel)

def sampleJumpState (ip : Addr 64) : State 64 := .initial sampleJumpLoaded ip

/-- The two `nop` and the jump to `0x402000`. -/
theorem sampleJump_run :
    MovedRun (Ia32.machine 64) sampleJump 0x401200 (0x500010 + 72) sampleJumpInsns
      (fun mem => Holds mem (0x500010 + 72) sampleJumpFixed.trampoline) sampleJumpContext.src 0
      (sampleJumpState 0) (sampleJumpState 0x402000) := by
  have hsrc : sampleJumpContext.src = 7 := by decide +kernel
  rw [hsrc]
  refine .next (t := sampleJumpState (0x500010 + 72 + 1)) (insnAt_head _ _) (by decide) ?_ rfl
    sampleJumpLoaded_holds ?_
  · rw [insnBytes_sampleJump_nop (Or.inl rfl)]
    exact Ia32.machine_exec rfl _ _ _
  refine .next (k := 1) (t := sampleJumpState (0x500010 + 72 + 2))
    (insnAt_cons (insnAt_head _ _) _) (by decide) ?_ rfl sampleJumpLoaded_holds ?_
  · rw [insnBytes_sampleJump_nop (Or.inr rfl)]
    exact Ia32.machine_exec rfl _ _ _
  refine .leaves (k := 2) (insnAt_cons (insnAt_cons (insnAt_head _ _) _) _) (by decide) ?_
  rw [insnBytes_sampleJump_jump, Ia32.machine_exec rfl]
  exact congrArg (fun p => some (sampleJumpState p)) (by decide +kernel)

theorem trampoline_reproduces_sample :
    (Ia32.machine 64).Steps (sampleJumpState (0x500010 + 72)) (sampleJumpState 0x402000) :=
  @trampoline_reproduces _ .x86_64 _ _ _ 0x500010 _ _ sampleJumpEntry (Ia32.machine 64)
    sampleJump_reported sampleJump_made (by decide +kernel) rfl 0x403000 sampleJump_fieldsAgree
    (machine_jumpsNear 64) 0 _ _ sampleJump_run sampleJumpLoaded_holds

end Funchook.X86
