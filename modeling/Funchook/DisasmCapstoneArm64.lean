import Funchook.BackJumpArm64

/-!
# Instructions reported through Capstone (`disasm_capstone.c`, AArch64)

`funchook_disasm_arm64_insn_info` names an instruction by its Capstone id, and a branch by its
condition as well. The registers come from `cs_regs_access`. When that fails the mask stays empty,
so an instruction counts as one that uses none of `x9` to `x15`.
-/

namespace Funchook.Arm64

open ByteMemory
open A64 (Reg Instr decode)

/-- `arm64_insn`, as far as the library tells them apart. -/
inductive CsId where
  | adr | adrp | b | bl | cbnz | cbz | ldr | ldrsw | prfm | tbnz | tbz | other
  deriving DecidableEq, Repr

/-- `arm64_reg`: a general register by its name of 32 or 64 bits. -/
inductive CsReg where
  | w (r : Reg)
  | x (r : Reg)
  | other
  deriving DecidableEq, Repr

/-- `cs_insn` with the details the library reads. -/
structure CsInsn where
  id : CsId
  /-- `detail->arm64.cc`, `none` for `ARM64_CC_INVALID` -/
  cc : Option (BitVec 4)
  /-- the registers read and those written, `none` when `cs_regs_access` fails -/
  regsAccess : Option (List CsReg × List CsReg)
  deriving DecidableEq, Repr

/-- The calls of Capstone in `funchook_disasm_init`. -/
structure Capstone where
  /-- the error of `cs_open` -/
  openError : Option String
  /-- the error of `cs_option` -/
  optionError : Option String
  csDisasm : Mem 64 → Addr 64 → List CsInsn
  /-- the error of `cs_errno` -/
  errno : String

def funchookDisasmInit (cs : Capstone) (m : Mem 64) (func : Addr 64) :
    Except Failure (List CsInsn) :=
  match cs.openError with
  | some err => .error ⟨errorInternalError, "cs_open error: " ++ err⟩
  | none =>
    match cs.optionError with
    | some err => .error ⟨errorInternalError, "cs_option error: " ++ err⟩
    | none =>
      match cs.csDisasm m func with
      | [] => .error ⟨errorDisassembly, "disassemble error: " ++ cs.errno⟩
      | insns => .ok insns

/-- `FUNCHOOK_ARM64_REG_X9` to `FUNCHOOK_ARM64_REG_X15` -/
def corruptibleReg (r : Reg) : Word :=
  match r.toNat with
  | 9 => 1 <<< 9
  | 10 => 1 <<< 10
  | 11 => 1 <<< 11
  | 12 => 1 <<< 12
  | 13 => 1 <<< 13
  | 14 => 1 <<< 14
  | 15 => 1 <<< 15
  | _ => 0

def cs2funchookReg : CsReg → Word
  | .w r => corruptibleReg r
  | .x r => corruptibleReg r
  | .other => 0

/-- `info.insn_id` -/
def CsInsn.insnId (insn : CsInsn) : InsnId :=
  match insn.id with
  | .adr => .adr
  | .adrp => .adrp
  | .b => if insn.cc = none then .b else .bCond
  | .bl => .bl
  | .cbnz => .cbnz
  | .cbz => .cbz
  | .ldr => .ldr
  | .ldrsw => .ldrsw
  | .prfm => .prfm
  | .tbnz => .tbnz
  | .tbz => .tbz
  | .other => .other

/-- A loop over the registers of one kind. -/
def addRegs (regs : Word) (names : List CsReg) : Word :=
  names.foldl (fun regs reg => regs ||| cs2funchookReg reg) regs

/-- `info.regs` -/
def CsInsn.regs (insn : CsInsn) : Word :=
  match insn.regsAccess with
  | none => 0
  | some (rregs, wregs) => addRegs (addRegs 0 rregs) wregs

/-- `funchook_disasm_arm64_insn_info` -/
def CsInsn.insnInfo (insn : CsInsn) : InsnInfo := ⟨insn.insnId, insn.regs⟩

/-- The disassembler that `funchook_make_trampoline` sees. -/
def csDecode (cs : Capstone) : Disasm := fun m func =>
  (funchookDisasmInit cs m func).map (·.map CsInsn.insnInfo)

/-! ## The mask of registers -/

theorem getLsbD_corruptibleReg (q r : Reg) :
    (corruptibleReg q).getLsbD r.toNat = decide (q = r ∧ Corruptible r) := by
  revert q r
  decide

theorem getLsbD_addRegs (regs : Word) (names : List CsReg) (k : ℕ) :
    (addRegs regs names).getLsbD k =
      (regs.getLsbD k || names.any fun reg => (cs2funchookReg reg).getLsbD k) := by
  unfold addRegs
  induction names generalizing regs with
  | nil => simp
  | cons reg names ih => simp [ih, Bool.or_assoc]

/-- The register is among those read or written. -/
def CsInsn.Accesses (insn : CsInsn) (r : Reg) : Prop :=
  ∃ rregs wregs, insn.regsAccess = some (rregs, wregs) ∧
    ∃ reg ∈ rregs ++ wregs, reg = .w r ∨ reg = .x r

theorem getLsbD_cs2funchookReg (reg : CsReg) (r : Reg) :
    (cs2funchookReg reg).getLsbD r.toNat = true ↔ Corruptible r ∧ (reg = .w r ∨ reg = .x r) := by
  cases reg with
  | w q => simp [cs2funchookReg, getLsbD_corruptibleReg, and_comm]
  | x q => simp [cs2funchookReg, getLsbD_corruptibleReg, and_comm]
  | other => simp [cs2funchookReg]

/-- **The mask** holds those registers of `x9` to `x15` that are read or written. -/
theorem getLsbD_regs (insn : CsInsn) (r : Reg) :
    insn.regs.getLsbD r.toNat = true ↔ Corruptible r ∧ insn.Accesses r := by
  unfold CsInsn.regs CsInsn.Accesses
  cases insn.regsAccess with
  | none => simp
  | some access =>
    obtain ⟨rregs, wregs⟩ := access
    have hempty : (0 : Word).getLsbD r.toNat = false := by simp
    simp only [getLsbD_addRegs, hempty, Bool.false_or, ← List.any_append, List.any_eq_true,
      getLsbD_cs2funchookReg]
    constructor
    · rintro ⟨reg, hmem, hr, hname⟩
      exact ⟨hr, rregs, wregs, rfl, reg, hmem, hname⟩
    · rintro ⟨hr, rregs', wregs', heq, reg, hmem, hname⟩
      cases heq
      exact ⟨reg, hmem, hr, hname⟩

/-! ## What the library relies on -/

/-- The Capstone id of an instruction. -/
def csIdOf : Instr → CsId
  | .adr _ _ => .adr
  | .adrp _ _ => .adrp
  | .b _ => .b
  | .bcond _ _ => .b
  | .bl _ => .bl
  | .cbz _ nonzero _ _ => if nonzero then .cbnz else .cbz
  | .tbz nonzero _ _ _ => if nonzero then .tbnz else .tbz
  | .ldrLit .prfm _ _ => .prfm
  | .ldrLit .sw _ _ => .ldrsw
  | .ldrLit _ _ _ => .ldr
  | .ldrReg .prfm _ _ => .prfm
  | .ldrReg .sw _ _ => .ldrsw
  | .ldrReg _ _ _ => .ldr
  | .br _ => .other
  | .blr _ => .other

/-- The condition of a branch. -/
def csCondition : Instr → Option (BitVec 4)
  | .bcond cond _ => some cond
  | _ => none

/-- The ids of the loads that may have a literal. -/
def CsId.IsLoad (id : CsId) : Prop := id = .ldr ∨ id = .ldrsw ∨ id = .prfm

/-- What Capstone reports of a word: its id, the condition of a branch, and the registers among
`x9` to `x15` when it knows them. -/
structure CsDescribes (accesses : Word → Reg → Prop) (word : Word) (insn : CsInsn) : Prop where
  id : ∀ i, decode word = some i → insn.id = csIdOf i
  cc : ∀ i, decode word = some i → insn.cc = csCondition i
  others : decode word = none → insn.id = .other ∨ insn.id.IsLoad ∧ word.getLsbD 29 = true
  access : insn.regsAccess ≠ none → ∀ r, Corruptible r → (insn.Accesses r ↔ accesses word r)

section Describes

variable {accesses : Word → Reg → Prop} {word : Word} {insn : CsInsn}

theorem CsDescribes.insnId (h : CsDescribes accesses word insn) {i : Instr}
    (hdecode : decode word = some i) : insn.insnId = insnIdOf i := by
  have hid := h.id i hdecode
  have hcc := h.cc i hdecode
  unfold CsInsn.insnId
  rw [hid, hcc]
  cases i with
  | cbz sf nonzero rt imm => cases nonzero <;> rfl
  | tbz nonzero pos rt imm => cases nonzero <;> rfl
  | ldrLit kind rt imm => cases kind <;> rfl
  | ldrReg kind rt rn => cases kind <;> rfl
  | _ => rfl

theorem CsDescribes.insnId_others (h : CsDescribes accesses word insn)
    (hdecode : decode word = none) :
    insn.insnId = .other ∨ IsLoad insn.insnId ∧ word.getLsbD 29 = true := by
  unfold CsInsn.insnId
  rcases h.others hdecode with hid | ⟨hid | hid | hid, hbit⟩
  · rw [hid]
    exact Or.inl rfl
  · rw [hid]
    exact Or.inr ⟨Or.inl rfl, hbit⟩
  · rw [hid]
    exact Or.inr ⟨Or.inr (Or.inl rfl), hbit⟩
  · rw [hid]
    exact Or.inr ⟨Or.inr (Or.inr rfl), hbit⟩

/-- A register of the word is missing in the mask only when its registers are not known. -/
theorem CsDescribes.regs_false_iff (h : CsDescribes accesses word insn) {r : Reg}
    (hr : Corruptible r) :
    insn.regs.getLsbD r.toNat = false ↔ insn.regsAccess = none ∨ ¬ accesses word r := by
  rw [Bool.eq_false_iff, Ne, getLsbD_regs]
  by_cases hnone : insn.regsAccess = none
  · refine ⟨fun _ => Or.inl hnone, fun _ haccess => ?_⟩
    obtain ⟨-, rregs, wregs, hsome, -⟩ := haccess
    rw [hnone] at hsome
    cases hsome
  · rw [h.access hnone r hr]
    constructor
    · exact fun hnot => Or.inr fun haccess => hnot ⟨hr, haccess⟩
    · rintro (hfails | hnot) ⟨-, haccess⟩
      · exact hnone hfails
      · exact hnot haccess

end Describes

/-- The instructions of a window that Capstone describes. -/
def DescribesAll (accesses : Word → Reg → Prop) (m : Mem 64) (func : Addr 64)
    (insns : List CsInsn) : Prop :=
  ∀ j insn, insns[j]? = some insn → CsDescribes accesses (insnAt m func j) insn

section Window

variable {cs : Capstone} {accesses : Word → Reg → Prop} {m : Mem 64} {func : Addr 64}
  {insns : List CsInsn}

theorem getElem?_insnInfo {j : ℕ} {info : InsnInfo}
    (h : (insns.map CsInsn.insnInfo)[j]? = some info) :
    ∃ insn, insns[j]? = some insn ∧ info = insn.insnInfo := by
  rw [List.getElem?_map] at h
  obtain ⟨insn, hinsn, rfl⟩ := Option.map_eq_some_iff.mp h
  exact ⟨insn, hinsn, rfl⟩

theorem csDecode_ok (hinit : funchookDisasmInit cs m func = .ok insns) :
    csDecode cs m func = .ok (insns.map CsInsn.insnInfo) := by
  rw [csDecode, hinit]
  rfl

theorem describes_classified (hdescribes : DescribesAll accesses m func insns) :
    Classified m func (insns.map CsInsn.insnInfo) where
  insnId j info i hinfo hdecode := by
    obtain ⟨insn, hinsn, rfl⟩ := getElem?_insnInfo hinfo
    exact (hdescribes j insn hinsn).insnId hdecode
  others j info hinfo hdecode := by
    obtain ⟨insn, hinsn, rfl⟩ := getElem?_insnInfo hinfo
    exact (hdescribes j insn hinsn).insnId_others hdecode

/-- The registers are reported when no instruction whose registers Capstone does not know accesses
one of `x9` to `x15`. -/
theorem reports_iff (hinit : funchookDisasmInit cs m func = .ok insns)
    (hdescribes : DescribesAll accesses m func insns)
    (huses : ∀ word i r, decode word = some i → r ∈ i.usedRegs → accesses word r) :
    Reports accesses (csDecode cs) m func (insns.map CsInsn.insnInfo) ↔
      ∀ j insn, insns[j]? = some insn → insn.regsAccess = none →
        ∀ r, Corruptible r → ¬ accesses (insnAt m func j) r := by
  constructor
  · intro hreports j insn hinsn hnone r hr haccess
    have hinfo : (insns.map CsInsn.insnInfo)[j]? = some insn.insnInfo := by
      rw [List.getElem?_map, hinsn]
      rfl
    have hbit := hreports.regs j _ r hinfo haccess hr
    rw [show insn.insnInfo.regs = insn.regs from rfl,
      ((hdescribes j insn hinsn).regs_false_iff hr).mpr (Or.inl hnone)] at hbit
    cases hbit
  · intro hknown
    refine ⟨csDecode_ok hinit, (describes_classified hdescribes).insnId, ?_, huses⟩
    intro j info r hinfo haccess hr
    obtain ⟨insn, hinsn, rfl⟩ := getElem?_insnInfo hinfo
    by_contra hbit
    rcases ((hdescribes j insn hinsn).regs_false_iff hr).mp (Bool.eq_false_iff.mpr hbit) with
      hnone | hnot
    · exact hknown j insn hinsn hnone r hr haccess
    · exact hnot haccess

/-- Registers are short when each of `x9` to `x15` is known to be accessed by a moved
instruction. -/
theorem enoughRegs_iff (hdescribes : DescribesAll accesses m func insns) :
    EnoughRegs m func (insns.map CsInsn.insnInfo) ↔
      ∃ r, Corruptible r ∧ ∀ j < movedCount m func, ∀ insn, insns[j]? = some insn →
        insn.regsAccess = none ∨ ¬ accesses (insnAt m func j) r := by
  constructor
  · rintro ⟨b, hlo, hhi, hfree⟩
    have hb : (BitVec.ofNat 5 b).toNat = b := Nat.mod_eq_of_lt (by omega)
    have hr : Corruptible (BitVec.ofNat 5 b) := by
      rw [Corruptible, hb]
      exact ⟨hlo, hhi⟩
    refine ⟨BitVec.ofNat 5 b, hr, fun j hj insn hinsn => ?_⟩
    refine ((hdescribes j insn hinsn).regs_false_iff hr).mp ?_
    rw [hb]
    refine hfree j hj insn.insnInfo ?_
    rw [List.getElem?_map, hinsn]
    rfl
  · rintro ⟨r, hr, hfree⟩
    refine ⟨r.toNat, hr.1, hr.2, fun j hj info hinfo => ?_⟩
    obtain ⟨insn, hinsn, rfl⟩ := getElem?_insnInfo hinfo
    exact ((hdescribes j insn hinsn).regs_false_iff hr).mpr (hfree j hj insn hinsn)

/-- **Through Capstone.** Instructions as Capstone describes them are classified. Their registers
are reported exactly when no instruction whose registers are not known accesses one of `x9` to
`x15`, and there are enough exactly when one of these is not known to be accessed. -/
theorem capstone_reports_iff (hinit : funchookDisasmInit cs m func = .ok insns)
    (hdescribes : DescribesAll accesses m func insns)
    (huses : ∀ word i r, decode word = some i → r ∈ i.usedRegs → accesses word r) :
    Classified m func (insns.map CsInsn.insnInfo) ∧
      (Reports accesses (csDecode cs) m func (insns.map CsInsn.insnInfo) ↔
        ∀ j insn, insns[j]? = some insn → insn.regsAccess = none →
          ∀ r, Corruptible r → ¬ accesses (insnAt m func j) r) ∧
      (EnoughRegs m func (insns.map CsInsn.insnInfo) ↔
        ∃ r, Corruptible r ∧ ∀ j < movedCount m func, ∀ insn, insns[j]? = some insn →
          insn.regsAccess = none ∨ ¬ accesses (insnAt m func j) r) :=
  ⟨describes_classified hdescribes, reports_iff hinit hdescribes huses, enoughRegs_iff hdescribes⟩

end Window

/-! ## A sample -/

/-- `cbz x9, .+64`, and `nop` without its registers. -/
def cbzInsns : List CsInsn := [⟨.cbz, none, some ([.x 9], [])⟩, ⟨.other, none, none⟩]

def cbzCapstone : Capstone := ⟨none, none, fun _ _ => cbzInsns, ""⟩

theorem cbzInsns_described :
    DescribesAll sampleAccesses (sampleCode 0xb4000209 0xd503201f) 0x401000 cbzInsns := by
  have hfirst : decode (insnAt (sampleCode 0xb4000209 0xd503201f) 0x401000 0) =
      some (.cbz true false 9 16) := by decide +kernel
  have hsecond : decode (insnAt (sampleCode 0xb4000209 0xd503201f) 0x401000 1) = none := by
    decide +kernel
  intro j insn hinsn
  match j, hinsn with
  | 0, hinsn =>
    cases hinsn
    refine ⟨fun i hi => ?_, fun i hi => ?_, fun hnone => ?_, fun _ r _ => ?_⟩
    · rw [hfirst] at hi
      cases hi
      rfl
    · rw [hfirst] at hi
      cases hi
      rfl
    · rw [hfirst] at hnone
      cases hnone
    · unfold sampleAccesses CsInsn.Accesses
      rw [hfirst]
      constructor
      · rintro ⟨rregs, wregs, heq, reg, hmem, hname⟩
        cases heq
        obtain rfl := List.mem_singleton.mp hmem
        rcases hname with hname | hname
        · cases hname
        · cases hname
          exact ⟨_, rfl, List.mem_cons_self⟩
      · rintro ⟨i, hi, hr⟩
        cases hi
        obtain rfl := List.mem_singleton.mp hr
        exact ⟨_, _, rfl, _, List.mem_cons_self, Or.inr rfl⟩
  | 1, hinsn =>
    cases hinsn
    refine ⟨fun i hi => ?_, fun i hi => ?_, fun _ => Or.inl rfl, fun hne => absurd rfl hne⟩
    · rw [hsecond] at hi
      cases hi
    · rw [hsecond] at hi
      cases hi

theorem capstone_reports_iff_sample :
    Classified (sampleCode 0xb4000209 0xd503201f) 0x401000 (cbzInsns.map CsInsn.insnInfo) ∧
      (Reports sampleAccesses (csDecode cbzCapstone) (sampleCode 0xb4000209 0xd503201f) 0x401000
          (cbzInsns.map CsInsn.insnInfo) ↔
        ∀ j insn, cbzInsns[j]? = some insn → insn.regsAccess = none → ∀ r, Corruptible r →
          ¬ sampleAccesses (insnAt (sampleCode 0xb4000209 0xd503201f) 0x401000 j) r) ∧
      (EnoughRegs (sampleCode 0xb4000209 0xd503201f) 0x401000 (cbzInsns.map CsInsn.insnInfo) ↔
        ∃ r, Corruptible r ∧ ∀ j < movedCount (sampleCode 0xb4000209 0xd503201f) 0x401000,
          ∀ insn, cbzInsns[j]? = some insn → insn.regsAccess = none ∨
            ¬ sampleAccesses (insnAt (sampleCode 0xb4000209 0xd503201f) 0x401000 j) r) :=
  capstone_reports_iff rfl cbzInsns_described fun _ i _ hdecode hr => ⟨i, hdecode, hr⟩

end Funchook.Arm64
