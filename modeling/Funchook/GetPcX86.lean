import Funchook.Lib.Ia32
import Funchook.PatchBoundsX86

/-!
# Reading the program counter on i386 (`arch_x86.c`)

Position-independent code for i386 reads the program counter by a call: of a thunk made of
`movl (%esp),%reg; ret`, or of the next address, where `pop %reg` stands. A copy of the call would
read the address of the trampoline. The library writes a `movl` of the address behind the original
call instead. The machine fetches from code that its pushes do not reach.
-/

namespace Funchook.X86

open ByteMemory Ia32

variable {m : Mem 32} {func : Addr 32} {insns : List (Insn 32)} {call insn : Insn 32} {k j : ℕ}

/-! ## The sequences -/

/-- The two sequences that are replaced. -/
inductive GetPc where
  /-- `call __x86.get_pc_thunk.reg` -/
  | thunk
  /-- `call +0; pop %reg` -/
  | callAndPop
  deriving DecidableEq, Repr

/-- The bytes of the function that the sequence takes. -/
def GetPc.size : GetPc → ℕ
  | .thunk => 5
  | .callAndPop => 6

/-- The instructions that the processor executes for it. -/
def GetPc.steps : GetPc → ℕ
  | .thunk => 3
  | .callAndPop => 2

/-- `handle_x86_get_pc_thunk`, or after it `handle_x86_get_pc_by_call_and_pop`, rewrites the call
that stands `k` bytes into the function. -/
def GetPc.Rewrites (m : Mem 32) (func : Addr 32) (k : ℕ) (call : Insn 32) : GetPc → Prop
  | .thunk => ∃ ctx : MakeTrampolineContext 32, ctx.src = k ∧
      (handleX86GetPcThunk .i386 m func ctx call).isSome
  | .callAndPop => ∃ ctx : MakeTrampolineContext 32, ctx.src = k ∧
      handleX86GetPcThunk .i386 m func ctx call = none ∧
      (handleX86GetPcByCallAndPop .i386 m func ctx call).isSome

/-- The code of a function is reported as the library needs it: `e8` starts a near call, and an
opcode of `pop` is an instruction by itself. -/
structure GetPcReported (disasm : Disasm 32) (m : Mem 32) (func : Addr 32)
    (insns : List (Insn 32)) : Prop where
  decoded : disasm m func = .ok insns
  contiguous : Contiguous func insns
  insn : ∀ insn ∈ insns, InsnReported m insn
  call : ∀ insn ∈ insns, m insn.address = 0xe8 → insn.size = 5 ∧
    insn.branchAddress = insn.address + 5 + readWord 4 m (insn.address + 1)
  pop : ∀ insn ∈ insns, (m insn.address).extractLsb' 3 5 = 0b01011 → insn.size = 1

/-! ## Execution -/

/-- The state after the sequence at `s.ip`: the address behind the call is in `dst`, and in the
four bytes below the stack pointer. -/
def afterGetPc (s : State 32) (dst : BitVec 3) (next : Addr 32) : State 32 :=
  { (s.writeReg (dst.setWidth 4) (s.ip + 5)).withIp next with
    mem := writePtr s.mem (s.sp - 4) (s.ip + 5) }

theorem setWidth_ne_sp {dst : BitVec 3} (hdst : dst ≠ 4) : dst.setWidth 4 ≠ (4 : Reg) := by
  revert dst
  decide

section Run

variable {s : State 32} {dst : BitVec 3} {rel : BitVec 32}

/-- The state behind the call. -/
def afterCall (s : State 32) (rel : BitVec 32) : State 32 :=
  { (s.writeReg 4 (s.sp - 4)).withIp (s.ip + 5 + rel) with
    mem := writePtr s.mem (s.sp - 4) (s.ip + 5) }

theorem stepIn_call (hcall : Holds m s.ip (Instr.callRel rel).encode) :
    stepIn false m s = some (afterCall s rel) := by
  have hstep := stepIn_of_holds false rfl hcall
  rw [Instr.effect, BitVec.signExtend_eq] at hstep
  exact hstep

theorem afterCall_sp (s : State 32) (rel : BitVec 32) : (afterCall s rel).sp = s.sp - 4 :=
  State.writeReg_reg_self s 4 (s.sp - 4)

theorem afterCall_top (s : State 32) (rel : BitVec 32) :
    readPtr (afterCall s rel).mem (s.sp - 4) = s.ip + 5 :=
  readPtr_writePtr s.mem (s.sp - 4) (s.ip + 5) rfl

/-- The stack pointer is back where it was before the call. -/
theorem sp_restored (s' : State 32) (sp next : Addr 32) :
    ((s'.writeReg 4 (sp - 4 + BitVec.ofNat 32 (32 / 8))).withIp next).sp = sp :=
  (State.writeReg_reg_self s' 4 _).trans (BitVec.sub_add_cancel sp 4)

theorem afterGetPc_eq (rel : BitVec 32) {s' : State 32} {next : Addr 32}
    (hsp : s'.sp = s.sp) (hvalue : s'.reg (dst.setWidth 4) = s.ip + 5)
    (hregs : ∀ q, q ≠ 4 → q ≠ dst.setWidth 4 → s'.reg q = s.reg q) (hflags : s'.flags = s.flags)
    (hmem : s'.mem = (afterCall s rel).mem) (hip : s'.ip = next) : s' = afterGetPc s dst next := by
  have hreg : s'.reg = (s.writeReg (dst.setWidth 4) (s.ip + 5)).reg := by
    funext q
    by_cases hq : q = dst.setWidth 4
    · rw [hq, hvalue, State.writeReg_reg_self]
    · rw [State.writeReg_reg_of_ne s _ hq]
      by_cases hq4 : q = 4
      · rw [hq4]
        exact hsp
      · exact hregs q hq4 hq
  cases s'
  dsimp only at hreg hflags hmem hip
  subst hreg hflags hmem hip
  rfl

theorem run_thunk (hdst : dst ≠ 4) (hcall : Holds m s.ip (Instr.callRel rel).encode)
    (hthunk : Holds m (s.ip + 5 + rel) ((Instr.movTop dst).encode ++ Instr.ret.encode)) :
    runIn false m GetPc.thunk.steps s = some (afterGetPc s dst (s.ip + 5)) := by
  have hne := setWidth_ne_sp hdst
  rw [holds_append] at hthunk
  -- the value on top of the stack is the address behind the call
  have hmov : stepIn false m (afterCall s rel) = some (((afterCall s rel).writeReg
      (dst.setWidth 4) (s.ip + 5)).withIp (s.ip + 5 + rel + 3)) := by
    rw [stepIn_of_holds false (i := .movTop dst) rfl hthunk.1, Instr.effect, afterCall_sp,
      afterCall_top]
    rfl
  have hret := stepIn_of_holds false (i := .ret) (s := ((afterCall s rel).writeReg
    (dst.setWidth 4) (s.ip + 5)).withIp (s.ip + 5 + rel + 3)) rfl hthunk.2
  have hsp : (((afterCall s rel).writeReg (dst.setWidth 4) (s.ip + 5)).withIp
      (s.ip + 5 + rel + 3)).sp = s.sp - 4 :=
    (State.writeReg_reg_of_ne _ _ (Ne.symm hne)).trans (afterCall_sp s rel)
  rw [Instr.effect, hsp, State.withIp_mem, State.writeReg_mem, afterCall_top] at hret
  show runIn false m 3 s = _
  rw [runIn_succ (stepIn_call hcall), runIn_succ hmov, runIn_succ hret]
  refine congrArg some (afterGetPc_eq rel ?_ ?_ ?_ rfl rfl rfl)
  · exact sp_restored _ s.sp _
  · exact (State.writeReg_reg_of_ne _ _ hne).trans (State.writeReg_reg_self _ _ _)
  · intro q hq4 hq
    exact (State.writeReg_reg_of_ne _ _ hq4).trans ((State.writeReg_reg_of_ne _ _ hq).trans
      (State.writeReg_reg_of_ne _ _ hq4))

theorem run_callAndPop (hdst : dst ≠ 4)
    (hcall : Holds m s.ip ((Instr.callRel 0).encode ++ (Instr.pop dst).encode)) :
    runIn false m GetPc.callAndPop.steps s = some (afterGetPc s dst (s.ip + 6)) := by
  have hne := setWidth_ne_sp hdst
  rw [holds_append] at hcall
  have hip : (afterCall s 0).ip = s.ip + 5 := BitVec.add_zero (s.ip + 5)
  have hpop := stepIn_of_holds false (i := .pop dst) (s := afterCall s 0) rfl
    (hip ▸ hcall.2)
  rw [Instr.effect, afterCall_sp, afterCall_top] at hpop
  show runIn false m 2 s = _
  rw [runIn_succ (stepIn_call hcall.1), runIn_succ hpop]
  refine congrArg some (afterGetPc_eq 0 ?_ ?_ ?_ rfl rfl ?_)
  · exact (State.writeReg_reg_of_ne _ _ (Ne.symm hne)).trans (sp_restored (afterCall s 0) s.sp 0)
  · exact State.writeReg_reg_self _ _ _
  · intro q hq4 hq
    exact (State.writeReg_reg_of_ne _ _ hq).trans ((State.writeReg_reg_of_ne _ _ hq4).trans
      (State.writeReg_reg_of_ne _ _ hq4))
  · show (afterCall s 0).ip + 1 = s.ip + 6
    rw [hip, BitVec.add_assoc]
    rfl

/-- The replacement and the jump back. -/
theorem run_mov {eip : BitVec 32}
    (hcode : Holds m s.ip ((Instr.movImm dst eip).encode ++ (Instr.jmpRel rel).encode)) :
    runIn false m 2 s =
      some ((s.writeReg (dst.setWidth 4) eip).withIp (s.ip + 10 + rel)) := by
  rw [holds_append] at hcode
  have hmov := stepIn_of_holds false rfl hcode.1
  rw [Instr.effect, BitVec.setWidth_eq] at hmov
  have hjmp := stepIn_of_holds false (i := .jmpRel rel)
    (s := (s.writeReg (dst.setWidth 4) eip).withIp (s.ip + 5)) rfl hcode.2
  rw [Instr.effect, BitVec.signExtend_eq] at hjmp
  rw [runIn_succ hmov]
  refine (runIn_succ hjmp 0).trans ?_
  have hnext : s.ip + 5 + 5 + rel = s.ip + 10 + rel := by
    rw [BitVec.add_assoc s.ip]
    rfl
  show some ((s.writeReg (dst.setWidth 4) eip).withIp (s.ip + 5 + 5 + rel)) = _
  rw [hnext]

end Run

/-! ## The loop reaches the call -/

/-- The opcode of the `movl` and the code of the thunk name the same register. -/
theorem getPcThunkMov_reg {first4Bytes : BitVec 32} {opcode : Byte}
    (h : getPcThunkMov first4Bytes = some opcode) :
    ∃ dst : BitVec 3, dst ≠ 4 ∧ opcode = opReg 0b10111 dst ∧
      leBytes 4 first4Bytes = (Instr.movTop dst).encode ++ Instr.ret.encode := by
  unfold getPcThunkMov at h
  split_ifs at h with h₁ h₂ h₃ h₄ h₅ h₆ h₇
  · exact ⟨0, by decide, (Option.some.inj h).symm, by rw [h₁]; decide⟩
  · exact ⟨3, by decide, (Option.some.inj h).symm, by rw [h₂]; decide⟩
  · exact ⟨1, by decide, (Option.some.inj h).symm, by rw [h₃]; decide⟩
  · exact ⟨2, by decide, (Option.some.inj h).symm, by rw [h₄]; decide⟩
  · exact ⟨6, by decide, (Option.some.inj h).symm, by rw [h₅]; decide⟩
  · exact ⟨7, by decide, (Option.some.inj h).symm, by rw [h₆]; decide⟩
  · exact ⟨5, by decide, (Option.some.inj h).symm, by rw [h₇]; decide⟩

/-- The opcode of the `movl` and the opcode of the `pop` name the same register. -/
theorem popMov_reg {pop opcode : Byte} (h : popMov pop = some opcode) :
    ∃ dst : BitVec 3, dst ≠ 4 ∧ opcode = opReg 0b10111 dst ∧ pop = opReg 0b01011 dst := by
  unfold popMov at h
  split_ifs at h with h₁ h₂ h₃ h₄ h₅ h₆ h₇
  · exact ⟨0, by decide, (Option.some.inj h).symm, h₁⟩
  · exact ⟨3, by decide, (Option.some.inj h).symm, h₂⟩
  · exact ⟨1, by decide, (Option.some.inj h).symm, h₃⟩
  · exact ⟨2, by decide, (Option.some.inj h).symm, h₄⟩
  · exact ⟨6, by decide, (Option.some.inj h).symm, h₅⟩
  · exact ⟨7, by decide, (Option.some.inj h).symm, h₆⟩
  · exact ⟨5, by decide, (Option.some.inj h).symm, h₇⟩

/-- The two ends of a sequence in the code: a call, and what it or the next address holds. -/
def GetPc.InCode (m : Mem 32) (start target : Addr 32) (dst : BitVec 3) : GetPc → Prop
  | .thunk => Holds m target ((Instr.movTop dst).encode ++ Instr.ret.encode)
  | .callAndPop => readWord 4 m (start + 1) = (0 : BitVec 32) ∧ m (start + 5) = opReg 0b01011 dst

/-- What a rewriting handler has found, and what it does. -/
structure Rewritten (m : Mem 32) (func : Addr 32) (idiom : GetPc) (call : Insn 32) (dst : BitVec 3)
    (ctx ctx' : MakeTrampolineContext 32) : Prop where
  notSp : dst ≠ 4
  opcode : m (func + BitVec.ofNat 32 ctx.src) = 0xe8
  code : idiom.InCode m (func + BitVec.ofNat 32 ctx.src) call.branchAddress dst
  ctx_eq : ctx' = putMovEip ctx (opReg 0b10111 dst) (call.address + 5) idiom.size

theorem handleX86GetPcThunk_rewritten {ctx ctx' : MakeTrampolineContext 32}
    (h : handleX86GetPcThunk .i386 m func ctx call = some ctx') :
    ∃ dst, Rewritten m func .thunk call dst ctx ctx' := by
  unfold handleX86GetPcThunk at h
  dsimp only at h
  split_ifs at h with hopcode
  obtain ⟨opcode, hmov, rfl⟩ := Option.map_eq_some_iff.mp h
  obtain ⟨dst, hdst, rfl, hbytes⟩ := getPcThunkMov_reg hmov
  have hthunk := holds_readWord 4 m call.branchAddress
  rw [hbytes] at hthunk
  exact ⟨dst, hdst, hopcode, hthunk, rfl⟩

theorem handleX86GetPcByCallAndPop_rewritten {ctx ctx' : MakeTrampolineContext 32}
    (h : handleX86GetPcByCallAndPop .i386 m func ctx call = some ctx') :
    ∃ dst, Rewritten m func .callAndPop call dst ctx ctx' := by
  unfold handleX86GetPcByCallAndPop at h
  dsimp only at h
  split_ifs at h with hopcode
  obtain ⟨opcode, hmov, rfl⟩ := Option.map_eq_some_iff.mp h
  obtain ⟨dst, hdst, rfl, hpop⟩ := popMov_reg hmov
  refine ⟨dst, hdst, hopcode.1, ⟨?_, ?_⟩, rfl⟩
  · rw [BitVec.add_assoc]
    have hrel := hopcode.2
    rwa [BitVec.ofNat_add] at hrel
  · rw [BitVec.add_assoc]
    rwa [BitVec.ofNat_add] at hpop

theorem holds_singleton {a : Addr 32} {b : Byte} (h : m a = b) : Holds m a [b] := by
  rw [Holds, readBytes]
  simp [h]

theorem holds_callRel {a : Addr 32} (h : m a = 0xe8) :
    Holds m a (Instr.callRel (readWord 4 m (a + 1))).encode := by
  rw [Instr.encode, holds_append]
  exact ⟨holds_singleton h, holds_readWord 4 m (a + 1)⟩

/-- The original sequence, executed in place. -/
theorem Rewritten.run_original {idiom : GetPc} {dst : BitVec 3}
    {ctx ctx' : MakeTrampolineContext 32} (h : Rewritten m func idiom call dst ctx ctx')
    (haddr : call.address = func + BitVec.ofNat 32 ctx.src)
    (htarget : call.branchAddress = call.address + 5 + readWord 4 m (call.address + 1))
    {s : State 32} (hip : s.ip = func + BitVec.ofNat 32 ctx.src) :
    runIn false m idiom.steps s =
      some (afterGetPc s dst (func + BitVec.ofNat 32 (ctx.src + idiom.size))) := by
  obtain ⟨hdst, hopcode, hcode, -⟩ := h
  rw [BitVec.ofNat_add, ← BitVec.add_assoc]
  rw [haddr] at htarget
  rw [← hip] at hopcode hcode htarget ⊢
  cases idiom with
  | thunk =>
    refine run_thunk hdst (holds_callRel hopcode) ?_
    rw [← htarget]
    exact hcode
  | callAndPop =>
    refine run_callAndPop hdst ?_
    have hcall := holds_callRel hopcode
    rw [hcode.1] at hcall
    rw [holds_append]
    exact ⟨hcall, holds_singleton hcode.2⟩

theorem InsnReported.fits (h : InsnReported m insn) : InsnFits insn where
  size_pos := h.size_pos
  size_le := h.size_le
  disp := by
    intro hsize
    have hfield := h.disp (by omega)
    have hinside := hfield.inside
    exact ⟨hfield.opcode, by omega⟩
  imm := by
    intro hsize
    have hfield := h.imm (by omega)
    have hinside := hfield.inside
    exact ⟨hfield.opcode, by omega⟩

theorem rewrites_thunk {ctx : MakeTrampolineContext 32}
    (h : GetPc.thunk.Rewrites m func ctx.src call) :
    (handleX86GetPcThunk .i386 m func ctx call).isSome = true := by
  obtain ⟨c, hsrc, hsome⟩ := h
  rw [handleX86GetPcThunk_isSome call hsrc.symm, hsome]

theorem rewrites_callAndPop {ctx : MakeTrampolineContext 32}
    (h : GetPc.callAndPop.Rewrites m func ctx.src call) :
    (handleX86GetPcThunk .i386 m func ctx call).isSome = false ∧
      (handleX86GetPcByCallAndPop .i386 m func ctx call).isSome = true := by
  obtain ⟨c, hsrc, hthunk, hsome⟩ := h
  rw [handleX86GetPcThunk_isSome call hsrc.symm, handleX86GetPcByCallAndPop_isSome call hsrc.symm,
    hthunk, hsome]
  exact ⟨rfl, rfl⟩

/-- The round that a handler ends. -/
theorem Round.rewritten {rest : List (Insn 32)} {ctx ctx' : MakeTrampolineContext 32}
    {idiom : GetPc} (h : Round .i386 m func call rest ctx ctx')
    (hidiom : idiom.Rewrites m func ctx.src call) :
    ∃ c₁ dst rest, Rewritten m func idiom call dst ctx c₁ ∧
      finishTrampoline func c₁ rest = .ok ctx' := by
  cases idiom with
  | thunk =>
    have hsome := rewrites_thunk hidiom
    cases h with
    | @thunk c₁ hthunk hfinish =>
      obtain ⟨dst, hdone⟩ := handleX86GetPcThunk_rewritten hthunk
      exact ⟨c₁, dst, rest, hdone, hfinish⟩
    | pop hthunk => simp [hthunk] at hsome
    | last hthunk => simp [hthunk] at hsome
    | next hthunk => simp [hthunk] at hsome
  | callAndPop =>
    obtain ⟨hnone, hsome⟩ := rewrites_callAndPop hidiom
    cases h with
    | thunk hthunk => simp [hthunk] at hnone
    | @pop c₁ _ hpop hfinish =>
      obtain ⟨dst, hdone⟩ := handleX86GetPcByCallAndPop_rewritten hpop
      exact ⟨c₁, dst, rest.tail, hdone, hfinish⟩
    | last _ hpop => simp [hpop] at hsome
    | next _ hpop => simp [hpop] at hsome

/-- **The loop up to the call.** The instructions before it are copied, and the handler and the end
of the loop follow. -/
theorem moveInsns_rewritten {ctx ctx' : MakeTrampolineContext 32} {idiom : GetPc}
    (hstart : RoundStart ctx) (hcopied : Copied m func ctx)
    (hcontiguous : Contiguous (func + BitVec.ofNat 32 ctx.src) insns)
    (hreport : ∀ insn ∈ insns, InsnReported m insn)
    (hcalls : ∀ insn ∈ insns, m insn.address = 0xe8 → insn.size = 5)
    (hat : InsnAt insns k call) (hk : ctx.src + k < 5)
    (hidiom : idiom.Rewrites m func (ctx.src + k) call)
    (h : moveInsns .i386 m func insns ctx = .ok ctx') :
    ∃ c c₁ dst rest, c.src = ctx.src + k ∧ RoundStart c ∧ Copied m func c ∧
      Rewritten m func idiom call dst c c₁ ∧ finishTrampoline func c₁ rest = .ok ctx' := by
  induction insns generalizing ctx k with
  | nil =>
    obtain ⟨pre, post, heq, -⟩ := hat
    simp at heq
  | cons first rest ih =>
    rcases insnAt_cons_cases hat with ⟨rfl, rfl⟩ | ⟨j, rfl, hat'⟩
    · obtain ⟨c₁, dst, rest, hdone, hfinish⟩ := (moveInsns_round h).rewritten hidiom
      exact ⟨ctx, c₁, dst, rest, rfl, hstart, hcopied, hdone, hfinish⟩
    · have hfirst := hreport first List.mem_cons_self
      -- a handler that matched before would have ended the loop
      have hnot : m (func + BitVec.ofNat 32 ctx.src) ≠ 0xe8 := by
        intro hopcode
        have hsize := hcalls first List.mem_cons_self (hcontiguous.1.symm ▸ hopcode)
        omega
      cases moveInsns_round h with
      | thunk hthunk =>
        obtain ⟨dst, hdone⟩ := handleX86GetPcThunk_rewritten hthunk
        exact absurd hdone.opcode hnot
      | pop _ hpop =>
        obtain ⟨dst, hdone⟩ := handleX86GetPcByCallAndPop_rewritten hpop
        exact absurd hdone.opcode hnot
      | last _ _ hmove hge =>
        have hsrc := (moveInsn_src hmove).1
        omega
      | @next c₁ _ _ hmove hlt hrest =>
        have hsrc := (moveInsn_src hmove).1
        have hroom : ctx.src + first.size ≤ trampolineSize := by
          simp only [trampolineSize, rel2gJumpSize, maxInsnLen]
          omega
        have hcopied₁ := (moveInsn_copied hcopied hroom hmove).1
        have hstart₁ := (moveInsn_moved hmove).roundStart hstart hfirst.fits hlt
        have hrest_contiguous := hcontiguous.2
        rw [BitVec.add_assoc, ← BitVec.ofNat_add, ← hsrc] at hrest_contiguous
        rw [← Nat.add_assoc, ← hsrc] at hidiom ⊢
        exact ih hstart₁ hcopied₁ hrest_contiguous
          (fun i hi => hreport i (List.mem_cons_of_mem first hi))
          (fun i hi => hcalls i (List.mem_cons_of_mem first hi)) hat' (by omega) hidiom hrest

/-! ## The trampoline -/

/-- The code of a trampoline with a rewritten call: copies of the instructions before it, the
`movl`, and the jump to the address behind the sequence. -/
structure RewrittenCode (m : Mem 32) (func tramp : Addr 32) (k n : ℕ) (dst : BitVec 3)
    (code : List Byte) : Prop where
  before : ∀ i < k, code[i]? = some (m (func + BitVec.ofNat 32 i))
  split : ∃ pre post rel, pre.length = k ∧
    tramp + BitVec.ofNat 32 (k + 10) + rel = func + BitVec.ofNat 32 n ∧
    code = pre ++ ((Instr.movImm dst (func + BitVec.ofNat 32 (k + 5))).encode ++
      (Instr.jmpRel rel).encode) ++ post

theorem Rewritten.trampoline {idiom : GetPc} {dst : BitVec 3} {rest : List (Insn 32)}
    {c c₁ ctx : MakeTrampolineContext 32} (h : Rewritten m func idiom call dst c c₁)
    (hstart : RoundStart c) (hcopied : Copied m func c)
    (haddr : call.address = func + BitVec.ofNat 32 c.src)
    (hfinish : finishTrampoline func c₁ rest = .ok ctx) (tramp : Addr 32) :
    ctx.ripDisp.disp0.dstAddr = func + BitVec.ofNat 32 (c.src + idiom.size) ∧
      RewrittenCode m func tramp c.src (c.src + idiom.size) dst (fixedCode tramp ctx) := by
  have hctx := finishTrampoline_ok hfinish
  rw [h.ctx_eq] at hctx
  have hdst := hstart.dst
  have hlt := hstart.src
  have hlen := hcopied.length
  simp only [trampolineSize, rel2gJumpSize, maxInsnLen] at hlen
  let mov := Instr.movImm dst (func + BitVec.ofNat 32 (c.src + 5))
  let jmp := Instr.jmpRel (displacement (tramp + BitVec.ofNat 32 (c.src + 10))
    (func + BitVec.ofNat 32 (c.src + idiom.size)))
  have heip : (call.address + 5).setWidth 32 = func + BitVec.ofNat 32 (c.src + 5) := by
    rw [haddr, BitVec.setWidth_eq, BitVec.ofNat_add, BitVec.add_assoc]
    rfl
  have hunused : ¬ ctx.ripDisp.disp1.dstAddr ≠ 0 := by
    rw [hctx]
    show ¬ c.ripDisp.disp1.dstAddr ≠ 0
    rw [hstart.ripDisp]
    exact not_not.mpr rfl
  have hdisp0 : ctx.ripDisp.disp0 =
      ⟨func + BitVec.ofNat 32 (c.src + idiom.size), c.src + 10, c.src + 6⟩ := by
    rw [hctx]
    show (⟨_, c.dst + 5 + 5, c.dst + 5 + 1⟩ : IpDisplacementEntry 32) = _
    rw [hdst]
    rfl
  have hbytes : ctx.trampoline =
      overwrite (overwrite c.trampoline c.src mov.encode) (c.src + 5) [0xe9] := by
    rw [hctx]
    show overwrite (overwrite c.trampoline c.dst (opReg 0b10111 dst ::
      leBytes 4 ((call.address + 5).setWidth 32))) (c.dst + 5) [0xe9] = _
    rw [hdst, heip]
    rfl
  have hcode : fixedCode tramp ctx = overwrite c.trampoline c.src (mov.encode ++ jmp.encode) := by
    have hmov : mov.encode.length = 5 := encode_length mov
    have hjmp : jmp.encode = [0xe9] ++ leBytes 4 (displacement
        (tramp + BitVec.ofNat 32 (c.src + 10)) (func + BitVec.ofNat 32 (c.src + idiom.size))) := rfl
    unfold fixedCode
    dsimp only
    rw [if_neg hunused, fixDisplacement, hdisp0, hbytes, overwrite_append, hmov, hjmp,
      overwrite_append]
    rfl
  refine ⟨by rw [hdisp0], ?_, ?_⟩
  · intro i hi
    rw [hcode, getElem?_overwrite_of_out (Or.inl hi)]
    exact hcopied.code i hi
  · have hsize : (mov.encode ++ jmp.encode).length = 10 := by
      rw [List.length_append, encode_length, encode_length]
      rfl
    rw [hcode, overwrite_eq (by omega)]
    refine ⟨_, _, _, List.length_take_of_le (by omega), ?_, rfl⟩
    rw [displacement, BitVec.setWidth_eq, BitVec.add_comm, BitVec.sub_add_cancel]

/-! ## The state is preserved -/

/-- A state with the same registers, flags and instruction pointer, and with the same memory but for
the four bytes below the stack pointer. -/
structure SameState (s s' : State 32) : Prop where
  reg : s'.reg = s.reg
  flags : s'.flags = s.flags
  ip : s'.ip = s.ip
  mem : ∀ a, ¬ InRange (s.sp - 4) 4 a → s'.mem a = s.mem a

/-- What a rewritten call at `k` means for a trampoline of a function with `n` bytes replaced. -/
structure GetPcPreserved (m : Mem 32) (func tramp : Addr 32) (insns : List (Insn 32)) (k n : ℕ)
    (idiom : GetPc) (code : List Byte) : Prop where
  size : n = k + idiom.size
  /-- Every instruction is copied, belongs to the sequence, or stays in place behind it. -/
  once : ∀ j insn, InsnAt insns j insn →
    j + insn.size ≤ k ∨ k ≤ j ∧ j + insn.size ≤ n ∨ n ≤ j
  before : ∀ i < k, code[i]? = some (m (func + BitVec.ofNat 32 i))
  run : ∃ dst : BitVec 3, dst ≠ 4 ∧ ∀ (code' : Mem 32) (s : State 32), Holds code' tramp code →
    ∃ s₁ s₂, runIn false m idiom.steps (s.withIp (func + BitVec.ofNat 32 k)) = some s₁ ∧
      runIn false code' 2 (s.withIp (tramp + BitVec.ofNat 32 k)) = some s₂ ∧
      s₁.ip = func + BitVec.ofNat 32 n ∧ s₁.sp = s.sp ∧
      s₁.reg (dst.setWidth 4) = func + BitVec.ofNat 32 (k + 5) ∧ SameState s₁ s₂

theorem RewrittenCode.run {tramp : Addr 32} {n : ℕ} {dst : BitVec 3} {code : List Byte}
    (h : RewrittenCode m func tramp k n dst code) {code' : Mem 32} (hcode : Holds code' tramp code)
    (s : State 32) :
    runIn false code' 2 (s.withIp (tramp + BitVec.ofNat 32 k)) =
      some ((s.writeReg (dst.setWidth 4) (func + BitVec.ofNat 32 (k + 5))).withIp
        (func + BitVec.ofNat 32 n)) := by
  obtain ⟨-, pre, post, rel, hlen, hback, rfl⟩ := h
  rw [holds_append, holds_append, hlen] at hcode
  have hrun := run_mov (s := s.withIp (tramp + BitVec.ofNat 32 k)) hcode.1.2
  have hip : (s.withIp (tramp + BitVec.ofNat 32 k)).ip + 10 + rel = func + BitVec.ofNat 32 n := by
    rw [← hback, BitVec.ofNat_add, ← BitVec.add_assoc]
    rfl
  rw [hrun, hip]
  rfl

/-- The two runs agree. -/
theorem afterGetPc_same {s : State 32} {dst : BitVec 3} (hdst : dst ≠ 4) (start next : Addr 32) :
    SameState (afterGetPc (s.withIp start) dst next)
      ((s.writeReg (dst.setWidth 4) (start + 5)).withIp next) where
  reg := rfl
  flags := rfl
  ip := rfl
  mem := by
    intro a ha
    have hsp : (afterGetPc (s.withIp start) dst next).sp = s.sp :=
      State.writeReg_reg_of_ne _ _ (Ne.symm (setWidth_ne_sp hdst))
    rw [hsp] at ha
    symm
    apply write_of_not_inRange
    rw [leBytes_length]
    exact ha

/-- No instruction is skipped or executed twice. -/
theorem Rewritten.once {idiom : GetPc} {dst : BitVec 3} {disasm : Disasm 32}
    {c c₁ : MakeTrampolineContext 32} (h : Rewritten m func idiom call dst c c₁)
    (hreport : GetPcReported disasm m func insns) (hat : InsnAt insns c.src call)
    (hsize : call.size = 5) (hj : InsnAt insns j insn) :
    j + insn.size ≤ c.src ∨ c.src ≤ j ∧ j + insn.size ≤ c.src + idiom.size ∨
      c.src + idiom.size ≤ j := by
  rcases insnAt_cases hreport.insn hj hat with hlt | ⟨rfl, rfl⟩ | hle
  · have hge : c.src + 5 ≤ j := by
      rcases insnAt_cases hreport.insn hat hj with hlt' | ⟨heq, -⟩ | hge
      · omega
      · omega
      · rwa [hsize] at hge
    cases idiom with
    | thunk => exact Or.inr (Or.inr hge)
    | callAndPop =>
      rcases Nat.eq_or_lt_of_le hge with rfl | hgt
      · -- the instruction behind the call is the `pop`
        have hpop : m insn.address = opReg 0b01011 dst := by
          rw [insnAt_address hreport.contiguous hj, BitVec.ofNat_add, ← BitVec.add_assoc]
          exact h.code.2
        have hone := hreport.pop insn (insnAt_mem hj) (by rw [hpop, opReg_op])
        refine Or.inr (Or.inl ⟨Nat.le_add_right _ _, ?_⟩)
        rw [hone, GetPc.size]
      · exact Or.inr (Or.inr hgt)
  · refine Or.inr (Or.inl ⟨Nat.le_refl _, ?_⟩)
    rw [hsize]
    cases idiom <;> simp only [GetPc.size] <;> omega
  · exact Or.inl hle

/-- **Reading the program counter.** A trampoline with a rewritten call leaves the state that the
original sequence leaves in place, and goes on behind the sequence, where the replaced bytes end. -/
theorem get_pc_preserved {disasm : Disasm 32} {func slot : Addr 32} {idiom : GetPc}
    {ctx : MakeTrampolineContext 32} {entry : FunchookEntry 32}
    (hreport : GetPcReported disasm m func insns) (hat : InsnAt insns k call) (hk : k < 5)
    (hidiom : idiom.Rewrites m func k call)
    (hmake : funchookMakeTrampoline .i386 disasm m func = .ok ctx)
    (htarget : entry.targetFunc = func) (htrampoline : entry.trampoline = ctx.trampoline)
    (hookCallerAsm : Addr 32) :
    GetPcPreserved m func (slot + BitVec.ofNat 32 (trampolineOffset .i386)) insns k
      (funchookFixCode .i386 hookCallerAsm slot entry ctx.ripDisp).patchCodeSize.toNat idiom
      (funchookFixCode .i386 hookCallerAsm slot entry ctx.ripDisp).trampoline := by
  unfold funchookMakeTrampoline at hmake
  rw [hreport.decoded] at hmake
  dsimp only at hmake
  have hcalls := fun insn hmem hopcode => (hreport.call insn hmem hopcode).1
  have hcontiguous : Contiguous (func + BitVec.ofNat 32 0) insns := by
    rw [BitVec.add_zero]
    exact hreport.contiguous
  have hzero : (MakeTrampolineContext.init : MakeTrampolineContext 32).src = 0 := rfl
  have haddr := insnAt_address hreport.contiguous hat
  cases hmove : moveInsns .i386 m func insns .init with
  | error f =>
    rw [hmove] at hmake
    cases hmake
  | ok ctx' =>
    obtain ⟨c, c₁, dst, rest, hsrc, hstart, hcopied, hdone, hfinish⟩ :=
      moveInsns_rewritten roundStart_init (copied_init m func) hcontiguous hreport.insn hcalls hat
        (by rw [hzero]; omega) (by rw [hzero, Nat.zero_add]; exact hidiom) hmove
    rw [hzero, Nat.zero_add] at hsrc
    have hctx : ctx' = ctx := by
      rw [hmove] at hmake
      dsimp only at hmake
      split_ifs at hmake
      exact Except.ok.inj hmake
    rw [hctx] at hfinish
    subst hsrc
    obtain ⟨hdst, hcode⟩ := hdone.trampoline hstart hcopied haddr hfinish
      (slot + BitVec.ofNat 32 (trampolineOffset .i386))
    have hopcode : m call.address = 0xe8 := by rw [haddr]; exact hdone.opcode
    obtain ⟨hsize, hbranch⟩ := hreport.call call (insnAt_mem hat) hopcode
    have hn : (funchookFixCode .i386 hookCallerAsm slot entry ctx.ripDisp).patchCodeSize.toNat =
        c.src + idiom.size := by
      have hle : idiom.size ≤ 6 := by cases idiom <;> decide
      show (displacement entry.targetFunc ctx.ripDisp.disp0.dstAddr).toNat = c.src + idiom.size
      rw [htarget, hdst, displacement, BitVec.setWidth_eq, add_sub_toNat func (by omega)]
    have hfixed : (funchookFixCode .i386 hookCallerAsm slot entry ctx.ripDisp).trampoline =
        fixedCode (slot + BitVec.ofNat 32 (trampolineOffset .i386)) ctx := by
      rw [fixedCode, ← htrampoline]
      rfl
    rw [hn, hfixed]
    refine ⟨rfl, fun j insn hj => hdone.once hreport hat hsize hj, hcode.before, dst, hdone.notSp,
      fun code' s hheld => ?_⟩
    refine ⟨_, _, hdone.run_original haddr hbranch rfl, hcode.run hheld s, rfl, ?_, ?_, ?_⟩
    · exact State.writeReg_reg_of_ne _ _ (Ne.symm (setWidth_ne_sp hdone.notSp))
    · refine (State.writeReg_reg_self _ _ _).trans ?_
      rw [BitVec.ofNat_add, ← BitVec.add_assoc]
      rfl
    · have hsame := afterGetPc_same (s := s) hdone.notSp (func + BitVec.ofNat 32 c.src)
        (func + BitVec.ofNat 32 (c.src + idiom.size))
      rw [show func + BitVec.ofNat 32 c.src + 5 = func + BitVec.ofNat 32 (c.src + 5) by
        rw [BitVec.ofNat_add, ← BitVec.add_assoc]; rfl] at hsame
      exact hsame

/-! ## A `nop`, and the program counter in `ebx` -/

/-- `nop; call +0; pop %ebx` at `0x401200`. -/
def callAndPopEbx : Mem 32 :=
  write (sampleWorld : World 32).bytes 0x401200 [0x90, 0xe8, 0x00, 0x00, 0x00, 0x00, 0x5b]

def callAndPopInsns : List (Insn 32) :=
  [⟨1, 0x401200, 0, ⟨0, 0, 0, 0⟩, ⟨0, 0, 0, 0⟩⟩,
    ⟨5, 0x401201, 0x401206, ⟨0, 0, 0, 0⟩, ⟨0x401206, 0, 1, 32⟩⟩,
    ⟨1, 0x401206, 0, ⟨0, 0, 0, 0⟩, ⟨0, 0, 0, 0⟩⟩]

theorem callAndPop_reported :
    GetPcReported (fun _ _ => .ok callAndPopInsns) callAndPopEbx 0x401200 callAndPopInsns where
  decoded := rfl
  contiguous := ⟨rfl, rfl, rfl, trivial⟩
  insn := by
    intro insn hmem
    simp only [callAndPopInsns, List.mem_cons, List.not_mem_nil, or_false] at hmem
    rcases hmem with rfl | rfl | rfl
    · exact ⟨by decide, by decide, Or.inl rfl, fun h => absurd rfl h, fun h => absurd rfl h⟩
    · exact ⟨by decide, by decide, Or.inl rfl, fun h => absurd rfl h,
        fun _ => ⟨by decide, by decide, fun _ => by decide +kernel⟩⟩
    · exact ⟨by decide, by decide, Or.inl rfl, fun h => absurd rfl h, fun h => absurd rfl h⟩
  call := by decide +kernel
  pop := by decide +kernel

def callAndPopContext : MakeTrampolineContext 32 :=
  (funchookMakeTrampoline .i386 (fun _ _ => .ok callAndPopInsns) callAndPopEbx
    0x401200).toOption.get (by decide +kernel)

theorem callAndPop_made : funchookMakeTrampoline .i386 (fun _ _ => .ok callAndPopInsns)
    callAndPopEbx 0x401200 = .ok callAndPopContext := by
  decide +kernel

def callAndPopEntry : FunchookEntry 32 where
  transit := List.replicate 24 0
  originalTargetFunc := 0x401200
  targetFunc := 0x401200
  hookFunc := 0x401000
  prehook := 0
  userData := 0
  flags := 0
  patchCodeSize := 20
  trampoline := callAndPopContext.trampoline
  oldCode := readBytes callAndPopEbx 0x401200 20
  newCode := List.replicate 20 0

theorem callAndPop_rewrites : GetPc.callAndPop.Rewrites callAndPopEbx 0x401200 1
    ⟨5, 0x401201, 0x401206, ⟨0, 0, 0, 0⟩, ⟨0x401206, 0, 1, 32⟩⟩ :=
  ⟨⟨.zero, 1, 1, [], 0⟩, rfl, by decide +kernel, by decide +kernel⟩

theorem get_pc_preserved_ebx :
    GetPcPreserved callAndPopEbx 0x401200 (0x500008 + 52) callAndPopInsns 1 7 .callAndPop
      (funchookFixCode .i386 0x403000 0x500008 callAndPopEntry
        callAndPopContext.ripDisp).trampoline :=
  @get_pc_preserved callAndPopEbx callAndPopInsns _ 1 _ _ 0x500008 _ _ callAndPopEntry
    callAndPop_reported ⟨[_], [_], rfl, rfl⟩ (by decide) callAndPop_rewrites callAndPop_made rfl rfl
    0x403000

end Funchook.X86
