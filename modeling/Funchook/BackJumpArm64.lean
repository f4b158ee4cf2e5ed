import Funchook.ExpansionArm64

/-!
# The scan for branches into the patch (AArch64)

After the two moved instructions `funchookMakeTrampoline` goes through the rest of the window and
asks for each instruction where it leads. The pointer to the function stays behind the second
word meanwhile, so it is that word that is read, at its own address, once with the class of every
instruction that follows. The moved instructions are not asked.
-/

namespace Funchook.Arm64

open ByteMemory
open A64 (Reg Instr LoadKind field decode wordOffset)

/-! ## What the disassembler is assumed to report -/

/-- Every instruction has its own class, and what is not decoded has no class that depends on the
program counter: loads of the other forms have bit 29 set. -/
structure Classified (m : Mem 64) (func : Addr 64) (infos : List InsnInfo) : Prop where
  insnId : ∀ j info i, infos[j]? = some info → decode (insnAt m func j) = some i →
    info.insnId = insnIdOf i
  others : ∀ j info, infos[j]? = some info → decode (insnAt m func j) = none →
    info.insnId = .other ∨ IsLoad info.insnId ∧ (insnAt m func j).getLsbD 29 = true

/-- The number of instructions that the loop moves from a window that is long enough. -/
def movedCount (m : Mem 64) (func : Addr 64) : ℕ := if branchThenUdf m func then 1 else 2

/-- Some register of `x9` to `x15` is used by no moved instruction. -/
def EnoughRegs (m : Mem 64) (func : Addr 64) (infos : List InsnInfo) : Prop :=
  ∃ b, 9 ≤ b ∧ b ≤ 15 ∧ ∀ j < movedCount m func, ∀ info, infos[j]? = some info →
    info.regs.getLsbD b = false

/-- The instruction at the index `j`, evaluated from its own word at its own address, leads
strictly inside the two patched words. -/
def LeadsInside (m : Mem 64) (func : Addr 64) (j : ℕ) : Prop :=
  ∃ i target, decode (insnAt m func j) = some i ∧ i.pcTarget (wordAddr func j) = some target ∧
    func < target ∧ target < wordAddr func rel4gJumpSize

/-- Some instruction of the window leads inside. -/
def HasBackJump (m : Mem 64) (func : Addr 64) (infos : List InsnInfo) : Prop :=
  ∃ j < infos.length, LeadsInside m func j

/-! ## `target_addr` -/

/-- **`target_addr`** computes the target of an instruction from its own word and class. -/
theorem targetAddr_of_decode {addr : Addr 64} {word : Word} {i : Instr}
    (hdecode : decode word = some i) :
    targetAddr addr word (insnIdOf i) = (i.pcTarget addr).getD 0 := by
  cases i with
  | adr rd imm =>
    obtain ⟨-, himm⟩ := A64.decode_adr hdecode
    rw [insnIdOf, targetAddr, immAdrOffset_eq, himm]
    rfl
  | adrp rd imm =>
    obtain ⟨-, himm⟩ := A64.decode_adrp hdecode
    rw [insnIdOf, targetAddr, immAdrOffset_eq, himm]
    rfl
  | b imm =>
    rw [insnIdOf, targetAddr, imm26Offset_eq, (A64.decode_b hdecode).2]
    rfl
  | bl imm =>
    rw [insnIdOf, targetAddr, imm26Offset_eq, (A64.decode_bl hdecode).2]
    rfl
  | bcond cond imm =>
    obtain ⟨-, -, -, -, -, -, himm⟩ := A64.decode_bcond hdecode
    rw [insnIdOf, targetAddr, imm19Offset_eq, himm]
    rfl
  | cbz sf nonzero rt imm =>
    obtain ⟨-, -, -, -, -, -, himm⟩ := A64.decode_cbz hdecode
    have htarget : targetAddr addr word (insnIdOf (.cbz sf nonzero rt imm)) =
        addr + imm19Offset word := by
      cases nonzero <;> rfl
    rw [htarget, imm19Offset_eq, himm]
    rfl
  | tbz nonzero pos rt imm =>
    obtain ⟨-, -, -, -, -, -, himm⟩ := A64.decode_tbz hdecode
    have htarget : targetAddr addr word (insnIdOf (.tbz nonzero pos rt imm)) =
        addr + imm14Offset word := by
      cases nonzero <;> rfl
    rw [htarget, imm14Offset_eq, himm]
    rfl
  | ldrLit kind rt imm =>
    obtain ⟨-, hlit, -, -, -, -, himm⟩ := A64.decode_ldrLit hdecode
    have hbit : ¬word &&& 0x20000000 ≠ 0 := not_not.mpr ((bit29_clear word).mpr
      (bit29_of_extract hlit))
    have htarget : targetAddr addr word (insnIdOf (.ldrLit kind rt imm)) =
        addr + imm19Offset word := by
      cases kind <;> exact if_neg hbit
    rw [htarget, imm19Offset_eq, himm]
    rfl
  | ldrReg kind rt rn =>
    have hbit : word &&& 0x20000000 ≠ 0 := by
      have hset := A64.decode_ldrReg hdecode
      exact (bit29_set word).mpr (by simpa [BitVec.eq_of_getLsbD_eq_iff] using hset)
    cases kind <;> exact if_pos hbit
  | br rn => rfl
  | blr rn => rfl

theorem targetAddr_load {addr : Addr 64} {word : Word} {id : InsnId} (hload : IsLoad id)
    (hbit : word.getLsbD 29 = true) : targetAddr addr word id = 0 := by
  have hset := (bit29_set word).mpr hbit
  rcases hload with rfl | rfl | rfl <;> exact if_pos hset

theorem not_jumpsBack_zero {m : Mem 64} {func : Addr 64} {src : ℕ} {info : InsnInfo}
    (h : targetAddr (wordAddr func src) (insnAt m func src) info.insnId = 0) :
    jumpsBack m func src info = false := by
  rw [jumpsBack, h, BitVec.ult_eq_decide, decide_eq_false (by simp)]
  rfl

/-- The test of the scan, asked of an instruction with its own word at its own address. -/
theorem jumpsBack_iff {m : Mem 64} {func : Addr 64} {infos : List InsnInfo}
    (hclass : Classified m func infos) {j : ℕ} {info : InsnInfo} (hinfo : infos[j]? = some info) :
    jumpsBack m func j info = true ↔ LeadsInside m func j := by
  cases hdecode : decode (insnAt m func j) with
  | none =>
    have hzero : targetAddr (wordAddr func j) (insnAt m func j) info.insnId = 0 := by
      rcases hclass.others j info hinfo hdecode with hother | ⟨hload, hbit⟩
      · rw [hother]
        rfl
      · exact targetAddr_load hload hbit
    rw [not_jumpsBack_zero hzero]
    constructor
    · intro h
      cases h
    · rintro ⟨i, target, hsome, -⟩
      rw [hdecode] at hsome
      cases hsome
  | some i =>
    have htarget := @targetAddr_of_decode (wordAddr func j) _ _ hdecode
    rw [← hclass.insnId j info i hinfo hdecode] at htarget
    cases hpc : i.pcTarget (wordAddr func j) with
    | none =>
      rw [hpc] at htarget
      rw [not_jumpsBack_zero htarget]
      constructor
      · intro h
        cases h
      · rintro ⟨i', target, hsome, htarget', -⟩
        rw [hdecode] at hsome
        cases hsome
        rw [hpc] at htarget'
        cases htarget'
    | some target =>
      rw [hpc] at htarget
      rw [jumpsBack, htarget, Option.getD_some, BitVec.ult_eq_decide, BitVec.ult_eq_decide,
        Bool.and_eq_true, decide_eq_true_iff, decide_eq_true_iff, ← BitVec.lt_def,
        ← BitVec.lt_def]
      constructor
      · rintro ⟨hlower, hupper⟩
        exact ⟨i, target, hdecode, hpc, hlower, hupper⟩
      · rintro ⟨i', target', hsome, htarget', hlower, hupper⟩
        rw [hdecode] at hsome
        cases hsome
        rw [hpc] at htarget'
        cases htarget'
        exact ⟨hlower, hupper⟩

/-! ## The loop does not fail -/

theorem toRegno_succeeds {avail : Word} {b : ℕ} (hlower : 9 ≤ b) (hupper : b ≤ 15)
    (h : avail.getLsbD b = true) : ∃ regno, toRegno avail = .ok regno := by
  unfold toRegno
  split_ifs with h9 h10 h11 h12 h13 h14 h15
  all_goals try exact ⟨_, rfl⟩
  obtain rfl | rfl | rfl | rfl | rfl | rfl | rfl : b = 9 ∨ b = 10 ∨ b = 11 ∨ b = 12 ∨ b = 13 ∨
      b = 14 ∨ b = 15 := by omega
  all_goals contradiction

/-- With a register to use, only a load of an unknown literal form is refused. -/
theorem moveInsn_succeeds {src : Addr 64} {word : Word} {info : InsnInfo}
    {ctx : MakeTrampolineContext} {regno : Word}
    (hregno : toRegno (used ctx info).availRegs = .ok regno)
    (hload : IsLoad info.insnId → word.getLsbD 29 = true ∨
      ∃ opcode, ldrOpcode (word >>> 24) = some opcode) :
    ∃ ctx', moveInsn src word info ctx = .ok ctx' := by
  change toRegno (ctx.availRegs &&& ~~~info.regs) = .ok regno at hregno
  cases hid : info.insnId with
  | other | adr | adrp =>
    simp only [moveInsn, hid]
    exact ⟨_, rfl⟩
  | b | bl | cbnz | cbz | tbnz | tbz =>
    simp only [moveInsn, hid, hregno]
    exact ⟨_, rfl⟩
  | bCond =>
    simp only [moveInsn, hid, hregno]
    by_cases hcond : word &&& 0x0f ≠ 0x0e
    · exact ⟨_, if_pos hcond⟩
    · exact ⟨_, if_neg hcond⟩
  | ldr | ldrsw | prfm =>
    have hisLoad : IsLoad info.insnId := by
      rw [hid]
      simp [IsLoad]
    rw [moveInsn_load _ _ _ hisLoad]
    by_cases hbit : word &&& 0x20000000 ≠ 0
    · exact ⟨_, if_pos hbit⟩
    · rw [if_neg hbit]
      rw [not_not, bit29_clear] at hbit
      rcases hload hisLoad with hset | ⟨opcode, hopcode⟩
      · rw [hbit] at hset
        cases hset
      · change ∃ ctx', toRegno (used ctx info).availRegs >>= _ = _
        rw [show toRegno (used ctx info).availRegs = .ok regno from hregno, hopcode]
        exact ⟨_, rfl⟩

theorem classified_load {m : Mem 64} {func : Addr 64} {infos : List InsnInfo}
    (hclass : Classified m func infos) {j : ℕ} {info : InsnInfo} (hinfo : infos[j]? = some info)
    (hload : IsLoad info.insnId) :
    (insnAt m func j).getLsbD 29 = true ∨
      ∃ opcode, ldrOpcode (insnAt m func j >>> 24) = some opcode := by
  cases hdecode : decode (insnAt m func j) with
  | none =>
    rcases hclass.others j info hinfo hdecode with hother | ⟨-, hbit⟩
    · rw [hother] at hload
      exact absurd hload (by simp [IsLoad])
    · exact Or.inl hbit
  | some i =>
    rw [hclass.insnId j info i hinfo hdecode] at hload
    cases i with
    | ldrLit kind rt imm =>
      obtain ⟨opcode, hopcode, -⟩ := decode_loadByReg hdecode 9
      exact Or.inr ⟨opcode, hopcode⟩
    | ldrReg kind rt rn =>
      refine Or.inl ?_
      have hset := A64.decode_ldrReg hdecode
      simpa [BitVec.eq_of_getLsbD_eq_iff] using hset
    | cbz sf nonzero rt imm => cases nonzero <;> exact absurd hload (by simp [IsLoad, insnIdOf])
    | tbz nonzero pos rt imm => cases nonzero <;> exact absurd hload (by simp [IsLoad, insnIdOf])
    | adr | adrp | b | bl | bcond | br | blr => exact absurd hload (by simp [IsLoad, insnIdOf])

theorem getLsbD_used {ctx : MakeTrampolineContext} {info : InsnInfo} {b : ℕ}
    (havail : ctx.availRegs.getLsbD b = true) (hlt : b < 32) (hinfo : info.regs.getLsbD b = false) :
    (used ctx info).availRegs.getLsbD b = true := by
  rw [used, BitVec.getLsbD_and, BitVec.getLsbD_not, havail, hinfo, decide_eq_true hlt]
  rfl

/-- A round on a classified instruction, with a register that it does not use. -/
theorem loopBody_succeeds {m : Mem 64} {func : Addr 64} {infos : List InsnInfo}
    (hclass : Classified m func infos) {ctx : MakeTrampolineContext} {info : InsnInfo} {b : ℕ}
    (hat : infos[ctx.src]? = some info) (hlower : 9 ≤ b) (hupper : b ≤ 15)
    (havail : ctx.availRegs.getLsbD b = true) (hfree : info.regs.getLsbD b = false) :
    ∃ ctx', loopBody m func ctx info = .ok ctx' ∧ ctx'.src = nextSrc m func ctx.src ∧
      ctx'.availRegs.getLsbD b = true := by
  have hused := getLsbD_used havail (by omega) hfree
  obtain ⟨regno, hregno⟩ := toRegno_succeeds hlower hupper hused
  obtain ⟨moved, hmove⟩ : ∃ moved,
      moveInsn (wordAddr func ctx.src) (insnAt m func ctx.src) info ctx = .ok moved :=
    moveInsn_succeeds hregno (classified_load hclass hat)
  have hbody : loopBody m func ctx info = .ok { moved with src := nextSrc m func ctx.src } := by
    rw [loopBody, hmove]
    rfl
  refine ⟨_, hbody, rfl, ?_⟩
  rw [(loopBody_emits hbody).1.availRegs]
  exact hused

/-! ## What the scan finds -/

/-- `FUNCHOOK_ERROR_FOUND_BACK_JUMP` is returned. -/
def FoundBackJump {α : Type} (result : Except Failure α) : Prop :=
  ∃ msg, result = .error ⟨errorFoundBackJump, msg⟩

/-- The scan after the jump back. -/
theorem finishTrampoline_foundBackJump {m : Mem 64} {func : Addr 64} {ctx : MakeTrampolineContext}
    {rest : List InsnInfo} (hregno : ∃ regno, toRegno ctx.availRegs = .ok regno) :
    (FoundBackJump (finishTrampoline m func ctx rest) ↔
      ∃ info ∈ rest, jumpsBack m func ctx.src info = true) ∧
      ∀ ctx', finishTrampoline m func ctx rest = .ok ctx' → ctx'.src = ctx.src := by
  obtain ⟨regno, hregno⟩ := hregno
  refine ⟨?_, ?_⟩
  · unfold finishTrampoline
    rw [hregno]
    show FoundBackJump (if rest.any (jumpsBack m func ctx.src) = true then _ else _) ↔ _
    split
    · rename_i hany
      exact ⟨fun _ => List.any_eq_true.mp hany, fun _ => ⟨_, rfl⟩⟩
    · rename_i hany
      constructor
      · rintro ⟨msg, h⟩
        cases h
      · intro h
        exact absurd (List.any_eq_true.mpr h) hany
  · intro ctx' h
    obtain ⟨regno', -, rfl⟩ := finishTrampoline_ok h
    rfl

/-- The end of `funchook_make_trampoline` adds no such error. -/
theorem foundBackJump_end {ctx : Except Failure MakeTrampolineContext} :
    FoundBackJump (ctx >>= fun ctx =>
      if ctx.src < rel4gJumpSize then .error ⟨errorTooShortInstructions, "Too short instructions"⟩
      else (pure ctx : Except Failure MakeTrampolineContext)) ↔ FoundBackJump ctx := by
  cases ctx with
  | error f => exact Iff.rfl
  | ok ctx =>
    show FoundBackJump (if ctx.src < rel4gJumpSize then _ else _) ↔ _
    constructor
    · rintro ⟨msg, h⟩
      split at h
      · cases h
      · cases h
    · rintro ⟨msg, h⟩
      cases h

/-- A window that ends before the second word is covered is too short. -/
theorem not_foundBackJump_ok {ctx : MakeTrampolineContext} :
    ¬FoundBackJump (.ok ctx : Except Failure MakeTrampolineContext) := by
  rintro ⟨msg, h⟩
  cases h

/-- **What is returned.** The error means that the word behind the patch leads inside when it is
read with the class of some instruction that was not moved. -/
theorem foundBackJump_iff {disasm : Disasm} {m : Mem 64} {func : Addr 64} {infos : List InsnInfo}
    (hdecoded : disasm m func = .ok infos) (hclass : Classified m func infos)
    (hregs : EnoughRegs m func infos) :
    FoundBackJump (funchookMakeTrampoline disasm m func) ↔
      ∃ info ∈ infos.drop (movedCount m func), jumpsBack m func rel4gJumpSize info = true := by
  obtain ⟨b, hlower, hupper, hfree⟩ := hregs
  have hinit : MakeTrampolineContext.init.availRegs.getLsbD b = true := by
    have hall : ∀ b : Fin 16, 9 ≤ b.val →
        MakeTrampolineContext.init.availRegs.getLsbD b.val = true := by
      decide
    exact hall ⟨b, by omega⟩ hlower
  have hmoves : FoundBackJump (funchookMakeTrampoline disasm m func) ↔
      FoundBackJump (moveInsns m func infos .init) := by
    rw [funchookMakeTrampoline, hdecoded]
    exact foundBackJump_end
  rw [hmoves]
  cases infos with
  | nil =>
    rw [List.drop_nil]
    constructor
    · intro h
      exact absurd h not_foundBackJump_ok
    · rintro ⟨info, hmem, -⟩
      cases hmem
  | cons first rest =>
    have hzero : MakeTrampolineContext.init.src = 0 := rfl
    have hcount : 0 < movedCount m func := by
      unfold movedCount
      split <;> decide
    obtain ⟨ctx₁, hbody₁, hsrc₁, havail₁⟩ :=
      @loopBody_succeeds m func _ hclass .init first b rfl hlower hupper hinit
        (hfree 0 hcount first rfl)
    rw [moveInsns, hbody₁]
    show FoundBackJump (if ctx₁.src ≥ rel4gJumpSize then _ else _) ↔ _
    by_cases hudf : branchThenUdf m func = true
    · -- the special case: one instruction is moved, and the pointer skips the second word
      have hsrc : ctx₁.src = rel4gJumpSize := by rw [hsrc₁, nextSrc, if_pos hudf]; rfl
      rw [if_pos (Nat.le_of_eq hsrc.symm), movedCount, if_pos hudf,
        (finishTrampoline_foundBackJump (toRegno_succeeds hlower hupper havail₁)).1, hsrc]
      rfl
    · have hsrc : ctx₁.src = 1 := by rw [hsrc₁, nextSrc, if_neg hudf, hzero]
      rw [if_neg (by rw [hsrc]; decide), movedCount, if_neg hudf]
      cases rest with
      | nil =>
        constructor
        · intro h
          exact absurd h not_foundBackJump_ok
        · rintro ⟨info, hmem, -⟩
          cases hmem
      | cons second rest =>
        obtain ⟨ctx₂, hbody₂, hsrc₂, havail₂⟩ :=
          @loopBody_succeeds m func _ hclass ctx₁ second b (by rw [hsrc]; rfl) hlower hupper havail₁
            (hfree 1 (by rw [movedCount, if_neg hudf]; decide) second rfl)
        have hend : ctx₂.src = rel4gJumpSize := by rw [hsrc₂, nextSrc, if_neg hudf, hsrc]; rfl
        rw [moveInsns, hbody₂]
        show FoundBackJump (if ctx₂.src ≥ rel4gJumpSize then _ else _) ↔ _
        rw [if_pos (Nat.le_of_eq hend.symm),
          (finishTrampoline_foundBackJump (toRegno_succeeds hlower hupper havail₂)).1, hend]
        rfl

/-! ## Words and classes that lead inside -/

/-- The word at the index `j`, read with a class, leads strictly inside the two patched words: the
immediate that a branch of this class has in the word is the distance to the second one. -/
def LeadsBy (func : Addr 64) (j : ℕ) (word : Word) (id : InsnId) : Prop :=
  func.toNat + 4 * rel4gJumpSize < 2 ^ 64 ∧
    match id with
    | .adr =>
      let d := BitVec.ofNat 64 (4 * j) +
        (word.extractLsb' 5 19 ++ word.extractLsb' 29 2).signExtend 64
      0 < d.toNat ∧ d.toNat < 4 * rel4gJumpSize
    | .adrp =>
      let d := roundDown (wordAddr func j) adrpPageSize - func +
        (word.extractLsb' 5 19 ++ word.extractLsb' 29 2).signExtend 64 <<< 12
      0 < d.toNat ∧ d.toNat < 4 * rel4gJumpSize
    | .b | .bl => BitVec.ofNat 64 (4 * j) + A64.wordOffset (word.extractLsb' 0 26) = 4
    | .ldr | .ldrsw | .prfm =>
      word.getLsbD 29 = false ∧
        BitVec.ofNat 64 (4 * j) + A64.wordOffset (word.extractLsb' 5 19) = 4
    | .bCond | .cbnz | .cbz =>
      BitVec.ofNat 64 (4 * j) + A64.wordOffset (word.extractLsb' 5 19) = 4
    | .tbnz | .tbz => BitVec.ofNat 64 (4 * j) + A64.wordOffset (word.extractLsb' 5 14) = 4
    | .other => False

/-- The instruction of the window at the index `j`, with its own word and class. -/
def OwnLeads (m : Mem 64) (func : Addr 64) (infos : List InsnInfo) (j : ℕ) : Prop :=
  ∃ info, infos[j]? = some info ∧ LeadsBy func j (insnAt m func j) info.insnId

/-- The word behind the patch, with the class of the instruction at the index `j`, which is not
moved. -/
def MisreadLeads (m : Mem 64) (func : Addr 64) (infos : List InsnInfo) (j : ℕ) : Prop :=
  movedCount m func ≤ j ∧ ∃ info, infos[j]? = some info ∧
    LeadsBy func rel4gJumpSize (insnAt m func rel4gJumpSize) info.insnId

theorem inside_iff (func target : Addr 64) :
    func < target ∧ target < wordAddr func rel4gJumpSize ↔
      func.toNat + 4 * rel4gJumpSize < 2 ^ 64 ∧
        0 < (target - func).toNat ∧ (target - func).toNat < 4 * rel4gJumpSize := by
  have hf := func.isLt
  have ht := target.isLt
  rw [BitVec.lt_def, BitVec.lt_def, wordAddr, BitVec.toNat_add, BitVec.toNat_sub]
  simp only [rel4gJumpSize, BitVec.toNat_ofNat]
  omega

/-- The distance of a branch is a multiple of 4, so the second word is all it can lead to. -/
theorem branch_inside_iff {n : ℕ} (func : Addr 64) (j : ℕ) (imm : BitVec n) :
    func < wordAddr func j + A64.wordOffset imm ∧
        wordAddr func j + A64.wordOffset imm < wordAddr func rel4gJumpSize ↔
      func.toNat + 4 * rel4gJumpSize < 2 ^ 64 ∧
        BitVec.ofNat 64 (4 * j) + A64.wordOffset imm = 4 := by
  have hdist : wordAddr func j + A64.wordOffset imm - func =
      BitVec.ofNat 64 (4 * j) + A64.wordOffset imm := by
    rw [wordAddr]
    grind
  have hfour : (BitVec.ofNat 64 (4 * j) + A64.wordOffset imm).toNat % 4 = 0 := by
    have hoffset : (A64.wordOffset imm).toNat % 4 = 0 := by
      rw [A64.wordOffset, BitVec.toNat_shiftLeft, Nat.shiftLeft_eq]
      omega
    rw [BitVec.toNat_add, BitVec.toNat_ofNat]
    omega
  rw [inside_iff, hdist, ← BitVec.toNat_inj]
  have height : 4 * rel4gJumpSize = 8 := rfl
  refine and_congr_right fun _ => ?_
  rw [height, show (4 : BitVec 64).toNat = 4 from rfl]
  omega

/-- **The test of the scan** by the fields of the word. -/
theorem jumpsBack_iff_leadsBy {m : Mem 64} {func : Addr 64} {src : ℕ} {info : InsnInfo} :
    jumpsBack m func src info = true ↔ LeadsBy func src (insnAt m func src) info.insnId := by
  have htest : jumpsBack m func src info = true ↔
      func < targetAddr (wordAddr func src) (insnAt m func src) info.insnId ∧
        targetAddr (wordAddr func src) (insnAt m func src) info.insnId <
          wordAddr func rel4gJumpSize := by
    rw [jumpsBack, BitVec.ult_eq_decide, BitVec.ult_eq_decide, Bool.and_eq_true,
      decide_eq_true_iff, decide_eq_true_iff, ← BitVec.lt_def, ← BitVec.lt_def]
  have hnull : ¬(func < 0 ∧ (0 : Addr 64) < wordAddr func rel4gJumpSize) :=
    fun h => BitVec.not_lt_zero h.1
  rw [htest]
  cases info.insnId with
  | other => exact iff_of_false hnull fun h => h.2
  | adr =>
    rw [targetAddr, immAdrOffset_eq, inside_iff]
    have hdist : ∀ d : BitVec 64, wordAddr func src + d - func =
        BitVec.ofNat 64 (4 * src) + d := by
      intro d
      rw [wordAddr]
      grind
    rw [hdist]
    rfl
  | adrp =>
    rw [targetAddr, immAdrOffset_eq, inside_iff]
    have hdist : ∀ a d : BitVec 64, a + d - func = a - func + d := by
      intro a d
      grind
    rw [hdist]
    rfl
  | b | bl =>
    rw [targetAddr, imm26Offset_eq]
    exact branch_inside_iff func src _
  | bCond | cbnz | cbz =>
    rw [targetAddr, imm19Offset_eq]
    exact branch_inside_iff func src _
  | tbnz | tbz =>
    rw [targetAddr, imm14Offset_eq]
    exact branch_inside_iff func src _
  | ldr | ldrsw | prfm =>
    cases hbit : (insnAt m func src).getLsbD 29 with
    | true =>
      rw [targetAddr, if_pos ((bit29_set _).mpr hbit)]
      refine iff_of_false hnull fun h => ?_
      have hclear : (insnAt m func src).getLsbD 29 = false := h.2.1
      rw [hbit] at hclear
      cases hclear
    | false =>
      rw [targetAddr, if_neg (not_not.mpr ((bit29_clear _).mpr hbit)), imm19Offset_eq,
        branch_inside_iff func src]
      exact and_congr_right fun _ => (and_iff_right hbit).symm

theorem hasBackJump_iff {m : Mem 64} {func : Addr 64} {infos : List InsnInfo}
    (hclass : Classified m func infos) :
    HasBackJump m func infos ↔ ∃ j, OwnLeads m func infos j := by
  constructor
  · intro h
    obtain ⟨j, hj, hleads⟩ := h
    have hinfo := List.getElem?_eq_getElem hj
    exact ⟨j, infos[j], hinfo,
      jumpsBack_iff_leadsBy.mp ((jumpsBack_iff hclass hinfo).mpr hleads)⟩
  · intro h
    obtain ⟨j, info, hinfo, hleads⟩ := h
    exact ⟨j, (List.getElem?_eq_some_iff.mp hinfo).1,
      (jumpsBack_iff hclass hinfo).mp (jumpsBack_iff_leadsBy.mpr hleads)⟩

theorem misread_iff {m : Mem 64} {func : Addr 64} {infos : List InsnInfo} :
    (∃ info ∈ infos.drop (movedCount m func), jumpsBack m func rel4gJumpSize info = true) ↔
      ∃ j, MisreadLeads m func infos j := by
  constructor
  · intro h
    obtain ⟨info, hmem, hback⟩ := h
    obtain ⟨i, hi⟩ := List.mem_iff_getElem?.mp hmem
    rw [List.getElem?_drop] at hi
    exact ⟨_, Nat.le_add_right _ i, info, hi, jumpsBack_iff_leadsBy.mp hback⟩
  · intro h
    obtain ⟨j, hle, info, hinfo, hleads⟩ := h
    refine ⟨info, List.mem_of_getElem? (i := j - movedCount m func) ?_,
      jumpsBack_iff_leadsBy.mpr hleads⟩
    rw [List.getElem?_drop, Nat.add_sub_cancel' hle]
    exact hinfo

/-- The instruction behind the patch is read with its own class. -/
theorem ownLeads_behind {m : Mem 64} {func : Addr 64} {infos : List InsnInfo} :
    OwnLeads m func infos rel4gJumpSize ↔ MisreadLeads m func infos rel4gJumpSize := by
  have hcount : movedCount m func ≤ rel4gJumpSize := by
    unfold movedCount
    split <;> decide
  exact ⟨fun h => ⟨hcount, h⟩, fun h => h.2⟩

/-- **Back-jump detection** is exact in three cases: the instruction behind the patch leads inside;
no other instruction does, and the word behind the patch does not with the class of another; or
another one does, and by chance that word does with the class of another. -/
theorem back_jump_exact_iff {disasm : Disasm} {m : Mem 64} {func : Addr 64} {infos : List InsnInfo}
    (hdecoded : disasm m func = .ok infos) (hclass : Classified m func infos)
    (hregs : EnoughRegs m func infos) :
    (FoundBackJump (funchookMakeTrampoline disasm m func) ↔ HasBackJump m func infos) ↔
      OwnLeads m func infos rel4gJumpSize ∨
        (∀ j ≠ rel4gJumpSize, ¬OwnLeads m func infos j ∧ ¬MisreadLeads m func infos j) ∨
          ((∃ j ≠ rel4gJumpSize, OwnLeads m func infos j) ∧
            ∃ j ≠ rel4gJumpSize, MisreadLeads m func infos j) := by
  have hbehind := @ownLeads_behind m func infos
  rw [foundBackJump_iff hdecoded hclass hregs, hasBackJump_iff hclass, misread_iff]
  by_cases hown : OwnLeads m func infos rel4gJumpSize
  · exact iff_of_true (iff_of_true ⟨_, hbehind.mp hown⟩ ⟨_, hown⟩) (Or.inl hown)
  -- the instruction behind the patch is the only one that both sides ask
  have hne : ∀ p : ℕ → Prop, ¬p rel4gJumpSize → ((∃ j, p j) ↔ ∃ j ≠ rel4gJumpSize, p j) := by
    intro p hp
    constructor
    · intro h
      obtain ⟨j, hj⟩ := h
      exact ⟨j, fun heq => hp (heq ▸ hj), hj⟩
    · intro h
      obtain ⟨j, -, hj⟩ := h
      exact ⟨j, hj⟩
  rw [hne _ (fun h => hown (hbehind.mpr h)), hne _ hown]
  constructor
  · intro hexact
    by_cases hother : ∃ j ≠ rel4gJumpSize, OwnLeads m func infos j
    · exact Or.inr (Or.inr ⟨hother, hexact.mpr hother⟩)
    · refine Or.inr (Or.inl fun j hj => ⟨fun h => hother ⟨j, hj, h⟩, fun h => ?_⟩)
      exact hother (hexact.mp ⟨j, hj, h⟩)
  · intro h
    rcases h with h | hnone | hboth
    · exact absurd h hown
    · constructor
      · intro hmis
        obtain ⟨j, hj, hleads⟩ := hmis
        exact absurd hleads (hnone j hj).2
      · intro hother
        obtain ⟨j, hj, hleads⟩ := hother
        exact absurd hleads (hnone j hj).1
    · exact iff_of_true hboth.2 hboth.1

/-- A disassembler that reports `n` instructions from their words. -/
def sampleWindow (n : ℕ) (m : Mem 64) (func : Addr 64) : List InsnInfo :=
  (List.range n).map fun j => sampleInfo (insnAt m func j)

theorem sampleWindow_classified (n : ℕ) (m : Mem 64) (func : Addr 64) :
    Classified m func (sampleWindow n m func) := by
  have hinfo : ∀ j info, (sampleWindow n m func)[j]? = some info →
      info = sampleInfo (insnAt m func j) := by
    intro j info h
    rw [sampleWindow, List.getElem?_map, Option.map_eq_some_iff] at h
    obtain ⟨k, hk, rfl⟩ := h
    obtain ⟨hlen, rfl⟩ := List.getElem?_eq_some_iff.mp hk
    rw [List.getElem_range]
  refine ⟨?_, ?_⟩
  · intro j info i h hdecode
    rw [hinfo j info h, sampleInfo, hdecode]
  · intro j info h hdecode
    rw [hinfo j info h, sampleInfo, hdecode]
    exact Or.inl rfl

/-- Words at `0x401000`. -/
def sampleWords (words : List Word) : Mem 64 := write (fun _ => 0) 0x401000 (wordBytes words)

/-- Two `nop` and a branch to the second of them, which is found. -/
def branchBehind : Mem 64 := sampleWords [0xd503201f, 0xd503201f, 0x17ffffff]

theorem back_jump_exact_iff_sample :
    FoundBackJump (funchookMakeTrampoline (fun m func => .ok (sampleWindow 3 m func)) branchBehind
        0x401000) ↔ HasBackJump branchBehind 0x401000 (sampleWindow 3 branchBehind 0x401000) := by
  refine (back_jump_exact_iff rfl (sampleWindow_classified 3 _ _) ?_).mpr (Or.inl ?_)
  · refine ⟨9, by decide, by decide, ?_⟩
    intro j hj info hinfo
    have hall : ∀ info ∈ sampleWindow 3 branchBehind 0x401000, info.regs.getLsbD 9 = false := by
      decide +kernel
    exact hall info (List.mem_of_getElem? hinfo)
  · have hword : insnAt branchBehind 0x401000 2 = 0x17ffffff := by decide +kernel
    refine ⟨sampleInfo 0x17ffffff, by decide +kernel, ?_⟩
    rw [show rel4gJumpSize = 2 from rfl, hword, show (sampleInfo 0x17ffffff).insnId = .b from rfl]
    exact ⟨by decide, by decide⟩

/-- Three `nop` and a branch to the second of them. -/
def branchLater : Mem 64 := sampleWords [0xd503201f, 0xd503201f, 0xd503201f, 0x17fffffe]

/-- **A branch back is missed.** The function is accepted, and its fourth word branches to the
second, which is overwritten. -/
theorem back_jump_missed :
    decode (insnAt branchLater 0x401000 3) = some (.b 0x3fffffe) ∧
      (Instr.b 0x3fffffe).pcTarget (wordAddr 0x401000 3) = some 0x401004 ∧
      ¬(FoundBackJump (funchookMakeTrampoline (fun m func => .ok (sampleWindow 4 m func))
          branchLater 0x401000) ↔
        HasBackJump branchLater 0x401000 (sampleWindow 4 branchLater 0x401000)) := by
  have hdecode : decode (insnAt branchLater 0x401000 3) = some (.b 0x3fffffe) := by decide +kernel
  refine ⟨hdecode, by decide, ?_⟩
  intro hexact
  obtain ⟨msg, hfound⟩ := hexact.mpr
    ⟨3, by decide, .b 0x3fffffe, 0x401004, hdecode, by decide, by decide, by decide⟩
  have haccepted : (funchookMakeTrampoline (fun m func => .ok (sampleWindow 4 m func))
      branchLater 0x401000).toOption.isSome = true := by
    decide +kernel
  rw [hfound] at haccepted
  cases haccepted

end Funchook.Arm64
