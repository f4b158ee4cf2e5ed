import Funchook.TrampolineArm64

/-!
# Expansions of AArch64 instructions keep their meaning

The words emitted for a moved instruction are run from the address of the first one, on any
machine that holds the finished trampoline. An instruction that goes through a register leaves
its operand in a scratch register that no instruction moved so far uses. A conditional branch is
inverted to skip the jump; the condition 15 is the one that inversion does not negate.
-/

namespace Funchook.Arm64

open ByteMemory
open A64 (Reg Instr LoadKind State field decode wordOffset Executes AgreeExcept)

/-! ## What the disassembler is assumed to report -/

/-- The class of an instruction. -/
def insnIdOf : Instr → InsnId
  | .adr _ _ => .adr
  | .adrp _ _ => .adrp
  | .b _ => .b
  | .bl _ => .bl
  | .bcond _ _ => .bCond
  | .cbz _ nonzero _ _ => if nonzero then .cbnz else .cbz
  | .tbz nonzero _ _ _ => if nonzero then .tbnz else .tbz
  | .ldrLit .prfm _ _ => .prfm
  | .ldrLit .sw _ _ => .ldrsw
  | .ldrLit _ _ _ => .ldr
  | .ldrReg .prfm _ _ => .prfm
  | .ldrReg .sw _ _ => .ldrsw
  | .ldrReg _ _ _ => .ldr
  | .br _ => .other
  | .blr _ => .other

/-- The instructions of `func` are reported as `infos`: each one that the machine model decodes is
classified, and the registers among `x9` to `x15` that a word reads or writes (`accesses`) are in
its mask. -/
structure Reports (accesses : Word → Reg → Prop) (disasm : Disasm) (m : Mem 64) (func : Addr 64)
    (infos : List InsnInfo) : Prop where
  decoded : disasm m func = .ok infos
  insnId : ∀ j info i, infos[j]? = some info → decode (insnAt m func j) = some i →
    info.insnId = insnIdOf i
  regs : ∀ j info r, infos[j]? = some info → accesses (insnAt m func j) r → Corruptible r →
    info.regs.getLsbD r.toNat = true
  uses : ∀ word i r, decode word = some i → r ∈ i.usedRegs → accesses word r

/-- A scratch register for the instruction at `idx`: one that neither it nor an instruction moved
before it reads or writes. -/
def Scratch (accesses : Word → Reg → Prop) (m : Mem 64) (func : Addr 64) (idx : ℕ) (r : Reg) :
    Prop :=
  Corruptible r ∧ ∀ j ≤ idx, ¬ accesses (insnAt m func j) r

/-! ## Running an expansion -/

/-- Wherever the finished trampoline stands, the words emitted between `ctx` and `ctx'`, run from
the first one, end in a state related by `R` to the effect of `i` at its own address. What follows
`i` is what follows these words. -/
def RunsAs (func : Addr 64) (ctx ctx' final : MakeTrampolineContext) (i : Instr)
    (R : State → State → Prop) : Prop :=
  ∀ tramp s, final.LoadedAt tramp s.mem → s.pc = wordAddr tramp ctx.dst.length →
    ∃ s', Executes (wordAddr tramp ctx.dst.length) (4 * (ctx'.dst.length - ctx.dst.length)) s s' ∧
      R (i.effect (wordAddr func ctx.src) (wordAddr tramp ctx'.dst.length) s) s'

theorem inRange_word (p : Addr 64) {d j n : ℕ} (hj : d ≤ j) (hn : j < d + n) (hsmall : n ≤ 14) :
    InRange (wordAddr p d) (4 * n) (wordAddr p j) := by
  have hadd := wordAddr_add p d (j - d)
  rw [Nat.add_sub_cancel' hj] at hadd
  rw [← hadd]
  exact inRange_add (by omega) (by omega)

theorem ldrAddr_put_dst_length (ctx : MakeTrampolineContext) (regno word : Word)
    (addr : BitVec 64) : ((ctx.ldrAddr regno addr).put word).dst.length = ctx.dst.length + 2 := by
  rw [put_dst_length, ldrAddr_dst_length]

theorem branchOver_dst_length (ctx : MakeTrampolineContext) (inverted regno : Word)
    (addr : BitVec 64) : (branchOver ctx inverted addr regno).dst.length = ctx.dst.length + 3 := by
  rw [branchOver, MakeTrampolineContext.brByReg, ldrAddr_put_dst_length, put_dst_length]

/-- `LDR_ADDR` and one more instruction. -/
theorem executes_ldrAddr_put {ctx final : MakeTrampolineContext} (hfits : final.Fits)
    {tramp : Addr 64} {s : State} (hload : final.LoadedAt tramp s.mem) {r : Reg} {addr : BitVec 64}
    {word : Word} {i : Instr}
    (hpart : ((ctx.ldrAddr (field 0 r) addr).put word).PartOf final)
    (hdecode : decode word = some i) (hpc : s.pc = wordAddr tramp ctx.dst.length) {lo : Addr 64}
    {n : ℕ} (hfirst : InRange lo n (wordAddr tramp ctx.dst.length))
    (hsecond : InRange lo n (wordAddr tramp (ctx.dst.length + 1))) :
    Executes lo n s (i.effect (wordAddr tramp (ctx.dst.length + 1))
      (wordAddr tramp (ctx.dst.length + 2)) (s.writeX r addr)) := by
  have hstep₁ := step_ldrAddr hfits hload ((partOf_put _ word).trans hpart) hpc
  have hlen := ldrAddr_dst_length ctx (field 0 r) addr
  have hstep₂ := step_put hfits
    (s := (s.writeX r addr).withPc (wordAddr tramp (ctx.dst.length + 1)))
    (by rwa [State.withPc_mem, State.writeX_mem]) hpart hdecode (by rw [hlen]; rfl)
  rw [hlen, A64.effect_withPc] at hstep₂
  exact .more (by rw [hpc]; exact hfirst) hstep₁ (.last hsecond hstep₂)

/-- An instruction that becomes `LDR_ADDR` and one other. -/
theorem runsAs_ldrAddr_put {func : Addr 64} {ctx final : MakeTrampolineContext}
    (hfits : final.Fits) {r : Reg} {addr : BitVec 64} {word : Word} {i j : Instr}
    {R : State → State → Prop}
    (hpart : ((ctx.ldrAddr (field 0 r) addr).put word).PartOf final)
    (hdecode : decode word = some j)
    (heffect : ∀ pc next s, R (i.effect (wordAddr func ctx.src) next s)
      (j.effect pc next (s.writeX r addr))) :
    RunsAs func ctx ((ctx.ldrAddr (field 0 r) addr).put word) final i R := by
  intro tramp s hload hpc
  have hin : ∀ k < 2, InRange (wordAddr tramp ctx.dst.length) (4 * 2)
      (wordAddr tramp (ctx.dst.length + k)) :=
    fun k hk => inRange_word tramp (by omega) (by omega) (by decide)
  rw [ldrAddr_put_dst_length, Nat.add_sub_cancel_left]
  exact ⟨_, executes_ldrAddr_put hfits hload hpart hdecode hpc (hin 0 (by decide))
    (hin 1 (by decide)), heffect _ _ s⟩

theorem put_part {ctx final : MakeTrampolineContext} {word : Word}
    (h : (ctx.put word).PartOf final) : ctx.PartOf final := (partOf_put ctx word).trans h

/-- **A branch over a jump.** When the inverted branch skips exactly if `taken` is false, control
ends at `addr` if `taken` holds and behind the three words otherwise. -/
theorem executes_branchOver {ctx final : MakeTrampolineContext} (hfits : final.Fits)
    {tramp : Addr 64} {s : State} (hload : final.LoadedAt tramp s.mem) {r : Reg} {addr : BitVec 64}
    {inverted : Word} {i : Instr} (hdecode : decode inverted = some i)
    (hoff : i.branchOffset = some 12)
    (hpart : (branchOver ctx inverted addr (field 0 r)).PartOf final)
    (hpc : s.pc = wordAddr tramp ctx.dst.length) (hr : Corruptible r) :
    ∃ s', Executes (wordAddr tramp ctx.dst.length) (4 * 3) s s' ∧
      AgreeExcept r (s.withPc (if i.taken s then wordAddr tramp (ctx.dst.length + 3) else addr))
        s' := by
  have hlen := put_dst_length ctx inverted
  have hstep := step_put hfits hload ((partOf_ldrAddr _ _ _).trans (put_part hpart)) hdecode hpc
  rw [A64.effect_of_branchOffset hoff, hpc] at hstep
  have hskip : wordAddr tramp ctx.dst.length + 12 = wordAddr tramp (ctx.dst.length + 3) :=
    wordAddr_add tramp ctx.dst.length 3
  have hin : ∀ k < 3, InRange (wordAddr tramp ctx.dst.length) (4 * 3)
      (wordAddr tramp (ctx.dst.length + k)) :=
    fun k hk => inRange_word tramp (by omega) (by omega) (by decide)
  by_cases htaken : i.taken s = true
  · rw [if_pos htaken, hskip] at hstep
    rw [if_pos htaken]
    exact ⟨_, .last (by rw [hpc]; exact hin 0 (by decide)) hstep, A64.agreeExcept_refl r _⟩
  · rw [if_neg htaken] at hstep
    rw [if_neg htaken]
    have hjump := executes_ldrAddr_put hfits (s := s.withPc (wordAddr tramp (ctx.dst.length + 1)))
      hload hpart (decode_brByReg r) (by rw [hlen]; rfl)
      (by rw [hlen]; exact hin 1 (by decide)) (by rw [hlen]; exact hin 2 (by decide))
    refine ⟨_, .more (by rw [hpc]; exact hin 0 (by decide)) hstep hjump, ?_⟩
    simp only [Instr.effect]
    rw [State.readX_writeX_self _ _ hr.ne_zr, A64.writeX_withPc, State.withPc_withPc]
    exact (A64.agreeExcept_writeX r s addr).withPc addr

/-! ## Conditional branches -/

/-- The context in which the switch runs: registers of this instruction are no longer available. -/
def used (ctx : MakeTrampolineContext) (info : InsnInfo) : MakeTrampolineContext :=
  { ctx with availRegs := ctx.availRegs &&& ~~~info.regs }

@[simp] theorem used_dst (ctx : MakeTrampolineContext) (info : InsnInfo) :
    (used ctx info).dst = ctx.dst := rfl

theorem wordOffset_three : wordOffset (3 : BitVec 19) = 12 ∧ wordOffset (3 : BitVec 14) = 12 := by
  decide

/-- The condition of the emitted branch is the negation of the original's. -/
def Negates (i j : Instr) : Prop := ∀ s : State, j.taken s = !i.taken s

/-- **What is emitted for a conditional branch.** A branch that skips three words, unless the
condition is 14, and the jump. -/
theorem moveInsn_conditional {src : Addr 64} {word : Word} {info : InsnInfo}
    {ctx ctx' : MakeTrampolineContext} {i : Instr} {off : BitVec 64}
    (hdecode : decode word = some i) (hoff : i.branchOffset = some off)
    (hid : info.insnId = insnIdOf i) (h : moveInsn src word info ctx = .ok ctx') :
    ∃ regno, toRegno (used ctx info).availRegs = .ok regno ∧
      ((∃ imm, i = .bcond 14 imm ∧
          ctx' = ((used ctx info).ldrAddr regno (src + off)).brByReg regno) ∨
        ∃ inverted j, decode inverted = some j ∧ j.branchOffset = some 12 ∧
          ((∀ imm, i ≠ .bcond 15 imm) → Negates i j) ∧
          ((∃ imm, i = .bcond 15 imm) → j = .bcond 14 3) ∧
          ctx' = branchOver (used ctx info) inverted (src + off) regno) := by
  cases i with
  | bcond cond imm =>
    cases hoff
    simp only [insnIdOf] at hid
    simp only [moveInsn, hid] at h
    obtain ⟨regno, hregno, h⟩ := exceptBind_ok h
    obtain ⟨-, -, -, -, -, hcond, himm⟩ := A64.decode_bcond hdecode
    rw [imm19Offset_eq, himm] at h
    refine ⟨regno, hregno, ?_⟩
    split at h
    · rename_i hne
      cases h
      refine Or.inr ⟨_, _, decode_inverted_bcond hdecode, congrArg some wordOffset_three.1,
        fun hnv s => ?_, ?_, rfl⟩
      · exact A64.conditionHolds_invert s
          (fun h14 => hne ((cond_eq_al word).mpr (hcond.trans h14)))
          fun h15 => hnv imm (by rw [h15])
      · rintro ⟨imm', heq⟩
        cases heq
        rfl
    · rename_i heq
      cases h
      refine Or.inl ⟨imm, ?_, rfl⟩
      rw [← hcond, (cond_eq_al word).mp (not_not.mp heq)]
  | cbz sf nonzero rt imm =>
    cases hoff
    obtain ⟨-, -, -, -, -, -, himm⟩ := A64.decode_cbz hdecode
    have hmove : ∃ regno, toRegno (used ctx info).availRegs = .ok regno ∧
        ctx' = branchOver (used ctx info) (imm19Reset (resetAt word 24) ||| invertAt word 24 |||
          toImm 3) (src + imm19Offset word) regno := by
      cases nonzero <;>
      · simp only [insnIdOf] at hid
        simp only [moveInsn, hid] at h
        obtain ⟨regno, hregno, h⟩ := exceptBind_ok h
        exact ⟨regno, hregno, (Except.ok.inj h).symm⟩
    obtain ⟨regno, hregno, rfl⟩ := hmove
    rw [imm19Offset_eq, himm]
    refine ⟨regno, hregno, Or.inr ⟨_, _, decode_inverted_cbz hdecode,
      congrArg some wordOffset_three.1, fun _ s => ?_, ?_, rfl⟩⟩
    · simp [Instr.taken]
    · rintro ⟨imm', heq⟩
      cases heq
  | tbz nonzero pos rt imm =>
    cases hoff
    obtain ⟨-, -, -, -, -, -, himm⟩ := A64.decode_tbz hdecode
    have hmove : ∃ regno, toRegno (used ctx info).availRegs = .ok regno ∧
        ctx' = branchOver (used ctx info) (imm14Reset (resetAt word 24) ||| invertAt word 24 |||
          toImm 3) (src + imm14Offset word) regno := by
      cases nonzero <;>
      · simp only [insnIdOf] at hid
        simp only [moveInsn, hid] at h
        obtain ⟨regno, hregno, h⟩ := exceptBind_ok h
        exact ⟨regno, hregno, (Except.ok.inj h).symm⟩
    obtain ⟨regno, hregno, rfl⟩ := hmove
    rw [imm14Offset_eq, himm]
    refine ⟨regno, hregno, Or.inr ⟨_, _, decode_inverted_tbz hdecode,
      congrArg some wordOffset_three.2, fun _ s => ?_, ?_, rfl⟩⟩
    · simp only [Instr.taken]
      cases (s.readX rt).getLsbD pos.toNat <;> cases nonzero <;> rfl
    · rintro ⟨imm', heq⟩
      cases heq
  | _ => cases hoff

/-- The register handed out is a scratch register. -/
theorem scratch_of_toRegno {accesses : Word → Reg → Prop} {disasm : Disasm} {m : Mem 64}
    {func : Addr 64} {infos rest : List InsnInfo} {info : InsnInfo} {ctx : MakeTrampolineContext}
    (hreports : Reports accesses disasm m func infos)
    (hreached : Reaches m func .init infos ctx (info :: rest)) {regno : Word}
    (h : toRegno (used ctx info).availRegs = .ok regno) :
    ∃ r, regno = field 0 r ∧ Scratch accesses m func ctx.src r := by
  obtain ⟨r, hregno, hcorruptible, havail⟩ := toRegno_ok h
  have hinv := reaches_loopInv hreached (loopInv_init infos)
  rw [used, BitVec.getLsbD_and, BitVec.getLsbD_not, Bool.and_eq_true, Bool.and_eq_true] at havail
  obtain ⟨-, -, hbefore⟩ := hinv.avail r.toNat havail.1
  have hat := hinv.at_src
  refine ⟨r, hregno, hcorruptible, fun j hj haccess => ?_⟩
  rcases Nat.lt_or_eq_of_le hj with hlt | rfl
  · have hlen : j < infos.length := Nat.lt_trans hlt (List.getElem?_eq_some_iff.mp hat).1
    have hinfo := List.getElem?_eq_getElem hlen
    have hregs := hreports.regs j _ r hinfo haccess hcorruptible
    rw [hbefore j hlt _ hinfo] at hregs
    cases hregs
  · rw [hreports.regs _ info r hat haccess hcorruptible] at havail
    exact absurd havail.2.2 (by decide)

/-- A branch that always skips the jump leaves the three words at once. -/
theorem not_runsAs_of_skips {func : Addr 64} {ctx final : MakeTrampolineContext}
    (hfits : final.Fits) {inverted : Word} {addr : BitVec 64} {regno : Word} {i j : Instr}
    (hdecode : decode inverted = some j) (hoff : j.branchOffset = some 12)
    (hskips : ∀ s, j.taken s = true) {off : BitVec 64} (hi : i.branchOffset = some off)
    (htaken : ∀ s, i.taken s = true)
    (hpart : (branchOver ctx inverted addr regno).PartOf final) (r : Reg) :
    ¬ RunsAs func ctx (branchOver ctx inverted addr regno) final i (AgreeExcept r) := by
  intro hruns
  have hlen := branchOver_dst_length ctx inverted regno addr
  -- the trampoline is put where the word behind the jump is not the target
  let target := wordAddr func ctx.src + off
  let tramp := target + 4 - BitVec.ofNat 64 (4 * (ctx.dst.length + 3))
  let s := State.initial (write (fun _ => 0) tramp final.trampolineBytes)
    (wordAddr tramp ctx.dst.length)
  have hbehind : wordAddr tramp (ctx.dst.length + 3) = target + 4 := BitVec.sub_add_cancel _ _
  have hload : final.LoadedAt tramp s.mem := by
    rw [State.initial_mem]
    exact loadedAt_write final tramp _
  obtain ⟨s', hexec, hagree⟩ := hruns tramp s hload rfl
  have hpc : s'.pc = target := by
    rw [hagree.pc, A64.effect_of_branchOffset hi, htaken, if_pos rfl]
    rfl
  have hstep := step_put hfits hload ((partOf_ldrAddr _ _ _).trans (put_part hpart)) hdecode rfl
  have hskip : s.pc + 12 = wordAddr tramp (ctx.dst.length + 3) :=
    wordAddr_add tramp ctx.dst.length 3
  rw [A64.effect_of_branchOffset hoff, hskips, if_pos rfl, hskip] at hstep
  rw [hlen, Nat.add_sub_cancel_left] at hexec
  have hs' := hexec.eq_of_leaves hstep (by
    rw [State.withPc_pc, ← wordAddr_add, InRange, add_sub_toNat _ (by decide)]
    decide)
  rw [hs', State.withPc_pc, hbehind] at hpc
  simp at hpc

/-- A round on the instruction that the loop has come to, and what it keeps. -/
theorem round_ok {accesses : Word → Reg → Prop} {disasm : Disasm} {m : Mem 64} {func : Addr 64}
    {infos rest : List InsnInfo} {info : InsnInfo} {ctx ctx' final : MakeTrampolineContext}
    {i : Instr} (hreports : Reports accesses disasm m func infos)
    (hmake : funchookMakeTrampoline disasm m func = .ok final)
    (hreached : Reaches m func .init infos ctx (info :: rest))
    (hbody : loopBody m func ctx info = .ok ctx')
    (hdecode : decode (insnAt m func ctx.src) = some i) :
    ∃ moved, moveInsn (wordAddr func ctx.src) (insnAt m func ctx.src) info ctx = .ok moved ∧
      ctx'.dst = moved.dst ∧ moved.PartOf final ∧ final.Fits ∧ info.insnId = insnIdOf i := by
  obtain ⟨hpart, hfits⟩ := loopBody_partOf hreached hbody
    (funchookMakeTrampoline_ok hreports.decoded hmake).1
  obtain ⟨moved, hmove, rfl⟩ := loopBody_ok hbody
  exact ⟨moved, hmove, rfl, ⟨hpart.dst, hpart.literalPool⟩, hfits,
    hreports.insnId _ info i (reaches_loopInv hreached (loopInv_init infos)).at_src hdecode⟩

theorem runsAs_congr {func : Addr 64} {ctx ctx' moved final : MakeTrampolineContext} {i : Instr}
    {R : State → State → Prop} (h : ctx'.dst = moved.dst) :
    RunsAs func ctx ctx' final i R ↔ RunsAs func ctx moved final i R := by
  simp only [RunsAs, h]

/-- Any conditional branch but the one with the condition 15 is moved faithfully. -/
theorem runsAs_conditional {accesses : Word → Reg → Prop} {disasm : Disasm} {m : Mem 64}
    {func : Addr 64} {infos rest : List InsnInfo} {info : InsnInfo}
    {ctx ctx' final : MakeTrampolineContext} {i : Instr} {off : BitVec 64}
    (hreports : Reports accesses disasm m func infos)
    (hmake : funchookMakeTrampoline disasm m func = .ok final)
    (hreached : Reaches m func .init infos ctx (info :: rest))
    (hbody : loopBody m func ctx info = .ok ctx')
    (hdecode : decode (insnAt m func ctx.src) = some i) (hoff : i.branchOffset = some off)
    (hne : ∀ imm, i ≠ .bcond 15 imm) :
    ∃ r, Scratch accesses m func ctx.src r ∧ RunsAs func ctx ctx' final i (AgreeExcept r) := by
  obtain ⟨moved, hmove, hdst, hpart, hfits, hid⟩ :=
    round_ok hreports hmake hreached hbody hdecode
  simp only [runsAs_congr hdst]
  obtain ⟨regno, hregno, hshape⟩ := moveInsn_conditional hdecode hoff hid hmove
  obtain ⟨r, rfl, hscratch⟩ := scratch_of_toRegno hreports hreached hregno
  rcases hshape with ⟨imm, rfl, rfl⟩ | ⟨inverted, j, hj, hjoff, hnegates, -, rfl⟩
  · -- the condition 14: the jump alone
    refine ⟨r, hscratch, @runsAs_ldrAddr_put func (used ctx info) _ hfits _ _ _ _ _ _ hpart
      (decode_brByReg r) fun pc next s => ?_⟩
    rw [A64.effect_of_branchOffset hoff, if_pos (A64.taken_al s imm), Instr.effect,
      State.readX_writeX_self _ _ hscratch.1.ne_zr]
    exact (A64.agreeExcept_writeX r s _).withPc _
  · refine ⟨r, hscratch, fun tramp s hload hpc => ?_⟩
    obtain ⟨s', hexec, hagree⟩ := executes_branchOver hfits hload hj hjoff hpart hpc hscratch.1
    rw [branchOver_dst_length, used_dst, Nat.add_sub_cancel_left]
    refine ⟨s', hexec, ?_⟩
    rw [A64.effect_of_branchOffset hoff]
    rw [hnegates hne s] at hagree
    cases htaken : i.taken s with
    | true => simpa [htaken] using hagree
    | false => simpa [htaken] using hagree

/-- The branch emitted for the condition 15 has the condition 14: the target is never reached. -/
theorem not_runsAs_nv {accesses : Word → Reg → Prop} {disasm : Disasm} {m : Mem 64}
    {func : Addr 64} {infos rest : List InsnInfo} {info : InsnInfo}
    {ctx ctx' final : MakeTrampolineContext} {imm : BitVec 19}
    (hreports : Reports accesses disasm m func infos)
    (hmake : funchookMakeTrampoline disasm m func = .ok final)
    (hreached : Reaches m func .init infos ctx (info :: rest))
    (hbody : loopBody m func ctx info = .ok ctx')
    (hdecode : decode (insnAt m func ctx.src) = some (.bcond 15 imm)) (r : Reg) :
    ¬ RunsAs func ctx ctx' final (.bcond 15 imm) (AgreeExcept r) := by
  obtain ⟨moved, hmove, hdst, hpart, hfits, hid⟩ :=
    round_ok hreports hmake hreached hbody hdecode
  rw [runsAs_congr hdst]
  obtain ⟨regno, hregno, hshape⟩ := moveInsn_conditional hdecode rfl hid hmove
  rcases hshape with ⟨imm', heq, -⟩ | ⟨inverted, j, hj, hjoff, -, hnv, rfl⟩
  · cases heq
  · obtain rfl := hnv ⟨imm, rfl⟩
    exact @not_runsAs_of_skips func (used ctx info) _ hfits _ _ _ _ _ hj hjoff
      (A64.taken_al · 3) _ rfl
      (A64.taken_nv · imm) hpart r

/-- **Conditional branches.** The words emitted for a conditional branch end at its target when
the branch is taken and behind them otherwise, and change at most one scratch register, if and
only if the branch is not `B.cond` with the condition 15. -/
theorem conditional_branch_expansion_iff {accesses : Word → Reg → Prop} {disasm : Disasm}
    {m : Mem 64} {func : Addr 64} {infos rest : List InsnInfo} {info : InsnInfo}
    {ctx ctx' final : MakeTrampolineContext} {i : Instr} {off : BitVec 64}
    (hreports : Reports accesses disasm m func infos)
    (hmake : funchookMakeTrampoline disasm m func = .ok final)
    (hreached : Reaches m func .init infos ctx (info :: rest))
    (hbody : loopBody m func ctx info = .ok ctx')
    (hdecode : decode (insnAt m func ctx.src) = some i) (hoff : i.branchOffset = some off) :
    (∃ r, Scratch accesses m func ctx.src r ∧ RunsAs func ctx ctx' final i (AgreeExcept r)) ↔
      ∀ imm, i ≠ .bcond 15 imm := by
  constructor
  · rintro ⟨r, -, hruns⟩ imm rfl
    exact not_runsAs_nv hreports hmake hreached hbody hdecode r hruns
  · exact runsAs_conditional hreports hmake hreached hbody hdecode hoff

/-! ## A sample function -/

/-- The registers of a list as a mask. -/
def regsMask (regs : List Reg) : Word :=
  regs.foldr (fun r mask => BitVec.twoPow 32 r.toNat ||| mask) 0

theorem getLsbD_regsMask {regs : List Reg} {r : Reg} (h : r ∈ regs) :
    (regsMask regs).getLsbD r.toNat = true := by
  have hr : r.toNat < 32 := r.isLt
  induction regs with
  | nil => cases h
  | cons q regs ih =>
    rw [regsMask, List.foldr_cons, BitVec.getLsbD_or]
    rcases List.mem_cons.mp h with rfl | h
    · simp [hr]
    · rw [Bool.or_eq_true]
      exact Or.inr (ih h)

/-- A disassembler that reports two instructions from their words. -/
def sampleInfo (word : Word) : InsnInfo :=
  match decode word with
  | some i => ⟨insnIdOf i, regsMask i.usedRegs⟩
  | none => ⟨.other, 0⟩

def sampleDisasm : Disasm := fun m func =>
  .ok [sampleInfo (insnAt m func 0), sampleInfo (insnAt m func 1)]

def sampleAccesses (word : Word) (r : Reg) : Prop := ∃ i, decode word = some i ∧ r ∈ i.usedRegs

theorem sampleDisasm_reports (m : Mem 64) (func : Addr 64) :
    Reports sampleAccesses sampleDisasm m func
      [sampleInfo (insnAt m func 0), sampleInfo (insnAt m func 1)] where
  decoded := rfl
  insnId := by
    intro j info i hinfo hdecode
    have hj : info = sampleInfo (insnAt m func j) := by
      match j, hinfo with
      | 0, h => exact (Option.some.inj h).symm
      | 1, h => exact (Option.some.inj h).symm
    rw [hj, sampleInfo, hdecode]
  regs := by
    rintro j info r hinfo ⟨i, hdecode, hr⟩ -
    have hj : info = sampleInfo (insnAt m func j) := by
      match j, hinfo with
      | 0, h => exact (Option.some.inj h).symm
      | 1, h => exact (Option.some.inj h).symm
    rw [hj, sampleInfo, hdecode]
    exact getLsbD_regsMask hr
  uses := fun _ i _ hdecode hr => ⟨i, hdecode, hr⟩

/-- Two words at `0x401000`. -/
def sampleCode (first second : Word) : Mem 64 :=
  write (fun _ => 0) 0x401000 (wordBytes [first, second])

/-- The first round on the two words. -/
def sampleRound (first second : Word) : Option MakeTrampolineContext :=
  (loopBody (sampleCode first second) 0x401000 .init
    (sampleInfo (insnAt (sampleCode first second) 0x401000 0))).toOption

def sampleFinal (first second : Word) : Option MakeTrampolineContext :=
  (funchookMakeTrampoline sampleDisasm (sampleCode first second) 0x401000).toOption

theorem ok_get {ε α : Type} {x : Except ε α} (h : x.toOption.isSome = true) :
    x = .ok (x.toOption.get h) := by
  cases x with
  | error e => cases h
  | ok a => rfl

/-- `cbz x3, .+64` and `nop`. -/
def cbzRound : MakeTrampolineContext := (sampleRound 0xb4000203 0xd503201f).get (by decide +kernel)

def cbzFinal : MakeTrampolineContext := (sampleFinal 0xb4000203 0xd503201f).get (by decide +kernel)

theorem conditional_branch_expansion_iff_sample :
    (∃ r, Scratch sampleAccesses (sampleCode 0xb4000203 0xd503201f) 0x401000 0 r ∧
      RunsAs 0x401000 .init cbzRound cbzFinal (.cbz true false 3 16) (AgreeExcept r)) ↔
        ∀ imm, Instr.cbz true false 3 16 ≠ .bcond 15 imm :=
  conditional_branch_expansion_iff (sampleDisasm_reports _ _)
    (ok_get _) (.here _ _)
    (ok_get _) (by decide +kernel) rfl

/-- `b.nv .+64` and `nop`. -/
def nvRound : MakeTrampolineContext := (sampleRound 0x5400020f 0xd503201f).get (by decide +kernel)

def nvFinal : MakeTrampolineContext := (sampleFinal 0x5400020f 0xd503201f).get (by decide +kernel)

/-- The moved `b.nv` does not run as the original, which is always taken. -/
theorem conditional_branch_expansion_nv :
    decode (insnAt (sampleCode 0x5400020f 0xd503201f) 0x401000 0) = some (.bcond 15 16) ∧
      funchookMakeTrampoline sampleDisasm (sampleCode 0x5400020f 0xd503201f) 0x401000 =
        .ok nvFinal ∧
      ¬ ∃ r, Scratch sampleAccesses (sampleCode 0x5400020f 0xd503201f) 0x401000 0 r ∧
        RunsAs 0x401000 .init nvRound nvFinal (.bcond 15 16) (AgreeExcept r) := by
  have hmake : funchookMakeTrampoline sampleDisasm (sampleCode 0x5400020f 0xd503201f) 0x401000 =
      .ok nvFinal := ok_get _
  refine ⟨by decide +kernel, hmake, ?_⟩
  rintro ⟨r, -, hruns⟩
  exact not_runsAs_nv (sampleDisasm_reports _ _) hmake (.here _ _)
    (ok_get _) (by decide +kernel) r hruns

/-! ## Addresses, literal loads and unconditional branches -/

/-- An instruction that becomes `LDR_ADDR` alone. -/
theorem runsAs_ldrAddr {func : Addr 64} {ctx final : MakeTrampolineContext} (hfits : final.Fits)
    {rd : Reg} {addr : BitVec 64} {i : Instr}
    (hpart : (ctx.ldrAddr (field 0 rd) addr).PartOf final)
    (heffect : ∀ next s, i.effect (wordAddr func ctx.src) next s = (s.writeX rd addr).withPc next) :
    RunsAs func ctx (ctx.ldrAddr (field 0 rd) addr) final i (· = ·) := by
  intro tramp s hload hpc
  have hin : InRange (wordAddr tramp ctx.dst.length) (4 * 1) (wordAddr tramp ctx.dst.length) :=
    inRange_word tramp (Nat.le_refl _) (Nat.lt_succ_self _) (by decide)
  rw [ldrAddr_dst_length, Nat.add_sub_cancel_left, heffect]
  exact ⟨_, .last (by rw [hpc]; exact hin) (step_ldrAddr hfits hload hpart hpc), rfl⟩

theorem moveInsn_adr {src : Addr 64} {word : Word} {info : InsnInfo}
    {ctx ctx' : MakeTrampolineContext} {rd : Reg} {imm : BitVec 21}
    (hdecode : decode word = some (.adr rd imm)) (hid : info.insnId = .adr)
    (h : moveInsn src word info ctx = .ok ctx') :
    ctx' = (used ctx info).ldrAddr (field 0 rd) (src + imm.signExtend 64) := by
  obtain ⟨hrd, himm⟩ := A64.decode_adr hdecode
  simp only [moveInsn, hid] at h
  rw [immAdrOffset_eq, himm, rdRegno_eq, hrd] at h
  exact (Except.ok.inj h).symm

theorem moveInsn_adrp {src : Addr 64} {word : Word} {info : InsnInfo}
    {ctx ctx' : MakeTrampolineContext} {rd : Reg} {imm : BitVec 21}
    (hdecode : decode word = some (.adrp rd imm)) (hid : info.insnId = .adrp)
    (h : moveInsn src word info ctx = .ok ctx') :
    ctx' = (used ctx info).ldrAddr (field 0 rd)
      ((src &&& ~~~(0xfff : BitVec 64)) + imm.signExtend 64 <<< 12) := by
  obtain ⟨hrd, himm⟩ := A64.decode_adrp hdecode
  simp only [moveInsn, hid] at h
  rw [immAdrOffset_eq, himm, rdRegno_eq, hrd] at h
  exact (Except.ok.inj h).symm

/-- `B` and `BL` become a jump through a register with the same link bit. -/
theorem moveInsn_branch {src : Addr 64} {word : Word} {info : InsnInfo}
    {ctx ctx' : MakeTrampolineContext} (hid : info.insnId = .b ∨ info.insnId = .bl)
    (h : moveInsn src word info ctx = .ok ctx') :
    ∃ regno, toRegno (used ctx info).availRegs = .ok regno ∧
      ctx' = ((used ctx info).ldrAddr regno (src + wordOffset (word.extractLsb' 0 26))).put
        (0xd61f0000 ||| (word &&& 0x80000000) >>> 10 ||| toImm regno) := by
  rcases hid with hid | hid <;>
  · simp only [moveInsn, hid] at h
    obtain ⟨regno, hregno, h⟩ := exceptBind_ok h
    rw [imm26Offset_eq] at h
    exact ⟨regno, hregno, (Except.ok.inj h).symm⟩

/-- The classes whose instructions are copied or replaced by their bit 29. -/
def IsLoad (id : InsnId) : Prop := id = .ldr ∨ id = .ldrsw ∨ id = .prfm

theorem moveInsn_load (src : Addr 64) (word : Word) {info : InsnInfo} (ctx : MakeTrampolineContext)
    (hid : IsLoad info.insnId) :
    moveInsn src word info ctx =
      if word &&& 0x20000000 ≠ 0 then .ok ((used ctx info).put word)
      else (toRegno (used ctx info).availRegs >>= fun regno =>
        match ldrOpcode (word >>> 24) with
        | some opcode => .ok (((used ctx info).ldrAddr regno (src + imm19Offset word)).put
            (opcode ||| toImm regno ||| rdRegno word))
        | none => .error ⟨errorInternalError, "Unknonw instruction: 0x" ++ fmtHex8 word⟩) := by
  rcases hid with hid | hid | hid <;>
  · simp only [moveInsn, hid]
    rfl

theorem isLoad_insnIdOf (kind : LoadKind) (rt : Reg) (imm : BitVec 19) :
    IsLoad (insnIdOf (.ldrLit kind rt imm)) := by
  cases kind <;> simp [IsLoad, insnIdOf]

theorem bit29_clear (w : Word) : w &&& 0x20000000 = 0 ↔ w.getLsbD 29 = false := by
  have hmask : (0x20000000 : Word) = BitVec.twoPow 32 29 := by decide
  rw [hmask, BitVec.and_twoPow]
  cases w.getLsbD 29 <;> decide

theorem bit29_set (w : Word) : w &&& 0x20000000 ≠ 0 ↔ w.getLsbD 29 = true := by
  rw [ne_eq, bit29_clear, Bool.not_eq_false]

/-- Bit 29 tells the literal form from the others. -/
theorem bit29_of_extract {w : Word} (h : w.extractLsb' 29 1 = 0#1) : w.getLsbD 29 = false := by
  simpa [BitVec.eq_of_getLsbD_eq_iff] using h

theorem moveInsn_ldrLit {src : Addr 64} {word : Word} {info : InsnInfo}
    {ctx ctx' : MakeTrampolineContext} {kind : LoadKind} {rt : Reg} {imm : BitVec 19}
    (hdecode : decode word = some (.ldrLit kind rt imm)) (hid : IsLoad info.insnId)
    (h : moveInsn src word info ctx = .ok ctx') :
    ∃ regno opcode, toRegno (used ctx info).availRegs = .ok regno ∧
      ldrOpcode (word >>> 24) = some opcode ∧
        ctx' = ((used ctx info).ldrAddr regno (src + wordOffset imm)).put
          (opcode ||| toImm regno ||| rdRegno word) := by
  obtain ⟨-, hlit, -, -, -, -, himm⟩ := A64.decode_ldrLit hdecode
  have hbit := (bit29_clear word).mpr (bit29_of_extract hlit)
  rw [moveInsn_load _ _ _ hid, if_neg (not_not.mpr hbit), imm19Offset_eq,
    himm] at h
  obtain ⟨regno, hregno, h⟩ := exceptBind_ok h
  split at h
  · rename_i opcode hopcode
    exact ⟨regno, opcode, hregno, hopcode, (Except.ok.inj h).symm⟩
  · cases h

/-- A round that ends with an error ends the making of the trampoline. -/
theorem make_error {disasm : Disasm} {m : Mem 64} {func : Addr 64} {infos rest : List InsnInfo}
    {info : InsnInfo} {ctx : MakeTrampolineContext} {f : Failure}
    (hdecoded : disasm m func = .ok infos)
    (hreached : Reaches m func .init infos ctx (info :: rest))
    (h : moveInsn (wordAddr func ctx.src) (insnAt m func ctx.src) info ctx = .error f) :
    funchookMakeTrampoline disasm m func = .error f := by
  have hbody : loopBody m func ctx info = .error f := by
    rw [loopBody, h]
    rfl
  have hmoves : moveInsns m func infos .init = .error f := by
    rw [reaches_moveInsns hreached, moveInsns, hbody]
    rfl
  rw [funchookMakeTrampoline, hdecoded]
  show moveInsns m func infos .init >>= _ = _
  rw [hmoves]
  rfl

/-- `B`, `BL` and the literal loads: a scratch register holds their target. -/
def NeedsScratch (i : Instr) : Prop :=
  (∃ imm, i = .b imm) ∨ (∃ imm, i = .bl imm) ∨ ∃ kind rt imm, i = .ldrLit kind rt imm

theorem runsAs_scratch {accesses : Word → Reg → Prop} {disasm : Disasm} {m : Mem 64}
    {func : Addr 64} {infos rest : List InsnInfo} {info : InsnInfo}
    {ctx ctx' final : MakeTrampolineContext} {i : Instr}
    (hreports : Reports accesses disasm m func infos)
    (hmake : funchookMakeTrampoline disasm m func = .ok final)
    (hreached : Reaches m func .init infos ctx (info :: rest))
    (hbody : loopBody m func ctx info = .ok ctx')
    (hdecode : decode (insnAt m func ctx.src) = some i) (hneeds : NeedsScratch i) :
    ∃ r, Scratch accesses m func ctx.src r ∧ RunsAs func ctx ctx' final i (AgreeExcept r) := by
  obtain ⟨moved, hmove, hdst, hpart, hfits, hid⟩ :=
    round_ok hreports hmake hreached hbody hdecode
  simp only [runsAs_congr hdst]
  rcases hneeds with ⟨imm, rfl⟩ | ⟨imm, rfl⟩ | ⟨kind, rt, imm, rfl⟩
  · obtain ⟨regno, hregno, rfl⟩ := moveInsn_branch (Or.inl hid) hmove
    obtain ⟨r, rfl, hscratch⟩ := scratch_of_toRegno hreports hreached hregno
    refine ⟨r, hscratch, @runsAs_ldrAddr_put func (used ctx info) _ hfits _ _ _ _ _ _ hpart
      (decode_branchByReg_b hdecode r) fun pc next s => ?_⟩
    rw [(A64.decode_b hdecode).2, Instr.effect, Instr.effect,
      State.readX_writeX_self _ _ hscratch.1.ne_zr]
    exact (A64.agreeExcept_writeX r s _).withPc _
  · obtain ⟨regno, hregno, rfl⟩ := moveInsn_branch (Or.inr hid) hmove
    obtain ⟨r, rfl, hscratch⟩ := scratch_of_toRegno hreports hreached hregno
    refine ⟨r, hscratch, @runsAs_ldrAddr_put func (used ctx info) _ hfits _ _ _ _ _ _ hpart
      (decode_branchByReg_bl hdecode r) fun pc next s => ?_⟩
    rw [(A64.decode_bl hdecode).2, Instr.effect, Instr.effect,
      State.readX_writeX_self _ _ hscratch.1.ne_zr]
    exact ((A64.agreeExcept_writeX r s _).writeX 30 next).withPc _
  · obtain ⟨regno, opcode, hregno, hopcode, rfl⟩ :=
      moveInsn_ldrLit hdecode (hid ▸ isLoad_insnIdOf kind rt imm) hmove
    obtain ⟨r, rfl, hscratch⟩ := scratch_of_toRegno hreports hreached hregno
    obtain ⟨opcode', hopcode', hload⟩ := decode_loadByReg hdecode r
    obtain rfl : opcode = opcode' := Option.some.inj (hopcode.symm.trans hopcode')
    refine ⟨r, hscratch, @runsAs_ldrAddr_put func (used ctx info) _ hfits _ _ _ _ _ _ hpart hload
      fun pc next s => ?_⟩
    rw [Instr.effect, Instr.effect, State.readBase_writeX_self _ _ hscratch.1.ne_zr]
    exact ((A64.agreeExcept_writeX r s _).load kind rt _).withPc next

/-- **PC-relative instructions.** The words emitted for `ADR` and `ADRP` do what the instruction
does at its own address; those for `B`, `BL` and the literal loads do so up to one scratch
register. A load whose bit 29 is set is copied, and a load that is no literal form is refused. -/
theorem pc_relative_expansion {accesses : Word → Reg → Prop} {disasm : Disasm} {m : Mem 64}
    {func : Addr 64} {infos rest : List InsnInfo} {info : InsnInfo} {ctx : MakeTrampolineContext}
    (hreports : Reports accesses disasm m func infos)
    (hreached : Reaches m func .init infos ctx (info :: rest)) :
    (∀ final ctx', funchookMakeTrampoline disasm m func = .ok final →
      loopBody m func ctx info = .ok ctx' →
        (∀ rd imm i, (i = .adr rd imm ∨ i = .adrp rd imm) →
          decode (insnAt m func ctx.src) = some i → RunsAs func ctx ctx' final i (· = ·)) ∧
        (∀ i, NeedsScratch i → decode (insnAt m func ctx.src) = some i →
          ∃ r, Scratch accesses m func ctx.src r ∧ RunsAs func ctx ctx' final i (AgreeExcept r)) ∧
        (IsLoad info.insnId → (insnAt m func ctx.src).getLsbD 29 = true →
          ctx'.dst = ctx.dst ++ [insnAt m func ctx.src] ∧ ctx'.literalPool = ctx.literalPool)) ∧
    (IsLoad info.insnId → (insnAt m func ctx.src).getLsbD 29 = false →
      (∀ kind rt imm, decode (insnAt m func ctx.src) ≠ some (.ldrLit kind rt imm)) →
        ∃ f, funchookMakeTrampoline disasm m func = .error f ∧
          ((∃ regno, toRegno (used ctx info).availRegs = .ok regno) →
            f = ⟨errorInternalError,
              "Unknonw instruction: 0x" ++ fmtHex8 (insnAt m func ctx.src)⟩)) := by
  refine ⟨fun final ctx' hmake hbody => ⟨?_, ?_, ?_⟩, ?_⟩
  · rintro rd imm i hi hdecode
    obtain ⟨moved, hmove, hdst, hpart, hfits, hid⟩ :=
      round_ok hreports hmake hreached hbody hdecode
    rw [runsAs_congr hdst]
    rcases hi with rfl | rfl
    · obtain rfl := moveInsn_adr hdecode hid hmove
      exact @runsAs_ldrAddr func (used ctx info) _ hfits _ _ _ hpart fun _ _ => rfl
    · obtain rfl := moveInsn_adrp hdecode hid hmove
      exact @runsAs_ldrAddr func (used ctx info) _ hfits _ _ _ hpart fun _ _ => rfl
  · exact fun i hneeds hdecode => runsAs_scratch hreports hmake hreached hbody hdecode hneeds
  · intro hload hbit
    obtain ⟨moved, hmove, rfl⟩ := loopBody_ok hbody
    rw [moveInsn_load _ _ _ hload, if_pos ((bit29_set _).mpr hbit)] at hmove
    cases hmove
    exact ⟨rfl, rfl⟩
  · intro hload hbit hlit
    have hopcode : ldrOpcode (insnAt m func ctx.src >>> 24) = none := by
      cases h : ldrOpcode (insnAt m func ctx.src >>> 24) with
      | none => rfl
      | some opcode =>
        obtain ⟨kind, rt, imm, hdecode⟩ := decode_of_ldrOpcode h
        exact absurd hdecode (hlit kind rt imm)
    have hmove := moveInsn_load (wordAddr func ctx.src) (insnAt m func ctx.src) ctx hload
    rw [if_neg (not_not.mpr ((bit29_clear _).mpr hbit)), hopcode] at hmove
    cases hregno : toRegno (used ctx info).availRegs with
    | error f =>
      rw [hregno] at hmove
      exact ⟨f, make_error hreports.decoded hreached hmove, fun ⟨_, h⟩ => by cases h⟩
    | ok regno =>
      rw [hregno] at hmove
      exact ⟨_, make_error hreports.decoded hreached hmove, fun _ => rfl⟩

/-- `ldr w5, .+32` and `nop`. -/
def ldrCode : Mem 64 := sampleCode 0x18000105 0xd503201f

def ldrRound : MakeTrampolineContext := (sampleRound 0x18000105 0xd503201f).get (by decide +kernel)

def ldrFinal : MakeTrampolineContext := (sampleFinal 0x18000105 0xd503201f).get (by decide +kernel)

theorem pc_relative_expansion_sample :
    ∃ r, Scratch sampleAccesses ldrCode 0x401000 0 r ∧
      RunsAs 0x401000 .init ldrRound ldrFinal (.ldrLit .w 5 8) (AgreeExcept r) := by
  have hexpansion := (pc_relative_expansion (sampleDisasm_reports ldrCode 0x401000)
    (.here _ _)).1 ldrFinal ldrRound (ok_get _) (ok_get _)
  exact hexpansion.2.1 _ (Or.inr (Or.inr ⟨_, _, _, rfl⟩)) (by decide +kernel)

end Funchook.Arm64
