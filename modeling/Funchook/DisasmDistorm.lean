import Funchook.InsnLayout

/-!
# Fields estimated from diStorm (`disasm_distorm.c`)

diStorm reports operands, but not where they are encoded. The offset of a PC-relative field is
estimated from the end of the instruction: the sizes of the operands in the order in which they
are listed, and one byte more for the opcodes that end with a byte that is no operand.
-/

namespace Funchook.X86

open ByteMemory

variable {w : ℕ}

/-- `_OperandType`, as far as the switch tells the operands apart. -/
inductive DiOperandType where
  | none
  | imm
  | pc
  | smem
  | mem
  | disp
  | other
  deriving DecidableEq, Repr

/-- `op->index`, the base register of an operand of the type `O_SMEM`. -/
inductive DiReg where
  | rip
  | other
  deriving DecidableEq, Repr

/-- `_Operand`, with the size in bits. -/
structure DiOperand where
  type : DiOperandType
  index : DiReg
  size : ℕ
  deriving DecidableEq, Repr

/-- The predicates of the comparisons of SSE. -/
inductive CmpPredicate where
  | eq
  | lt
  | le
  | unord
  | neq
  | nlt
  | nle
  | ord
  deriving DecidableEq, Repr

/-- The predicates of the comparisons of AVX. -/
inductive VcmpPredicate where
  | sse (p : CmpPredicate)
  | eqUq
  | nge
  | ngt
  | false
  | neqOq
  | ge
  | gt
  | true
  | eqOs
  | ltOq
  | leOq
  | unordS
  | neqUs
  | nltUq
  | nleUq
  | ordS
  | eqUs
  | ngeUq
  | ngtUq
  | falseOs
  | neqOs
  | geOq
  | gtOq
  | trueUs
  deriving DecidableEq, Repr

/-- What is compared: the first element or all of them, of double or single precision. -/
inductive CmpType where
  | sd
  | ss
  | pd
  | ps
  deriving DecidableEq, Repr

/-- `insn->opcode`, as far as the last switch tells the opcodes apart. -/
inductive DiOpcode where
  | cmp (p : CmpPredicate) (t : CmpType)
  | vcmp (p : VcmpPredicate) (t : CmpType)
  | pi2fd
  | pi2fw
  | pf2iw
  | pf2id
  | pswapd
  | vpblendvb
  | pfnacc
  | other
  deriving DecidableEq, Repr

/-- `_DInst`; `dispSize` is in bits. -/
structure DiInsn (w : ℕ) where
  addr : Addr w
  size : ℕ
  opcode : DiOpcode
  ops : List DiOperand
  immAddr : BitVec 64
  disp : BitVec 64
  dispSize : ℕ
  deriving DecidableEq, Repr

/-- The opcodes of the last switch. `I_VCMPTRUE_USSD` and `I_VCMPTRUE_USSS` are not listed. -/
def DiOpcode.listed : DiOpcode → Bool
  | .cmp _ _ => true
  | .vcmp .trueUs .sd => false
  | .vcmp .trueUs .ss => false
  | .vcmp _ _ => true
  | .pi2fd => true
  | .pi2fw => true
  | .pf2iw => true
  | .pf2id => true
  | .pswapd => true
  | .vpblendvb => true
  | .pfnacc => true
  | .other => false

/-- `opsiz`, `disp_offset`, `imm_offset` and the two results. -/
structure DiScan (w : ℕ) where
  opsiz : ℕ
  dispOffset : ℕ
  immOffset : ℕ
  relDisp : RipRelative w
  relImm : RipRelative w
  deriving DecidableEq, Repr

namespace DiInsn

variable (insn : DiInsn w)

def next : Addr w := insn.addr + BitVec.ofNat w insn.size

/-- The body of the loop. -/
def scanOperand (s : DiScan w) (op : DiOperand) : DiScan w :=
  match op.type with
  | .imm => { s with opsiz := s.opsiz + op.size / 8 }
  | .pc =>
    let imm := insn.immAddr.setWidth w
    { s with
      relImm := ⟨insn.next + imm, imm, s.relImm.offset, op.size⟩
      immOffset := s.opsiz
      opsiz := s.opsiz + op.size / 8 }
  | .smem =>
    if insn.dispSize ≠ 0 ∧ op.index = .rip then
      let disp := insn.disp.setWidth w
      { s with
        relDisp := ⟨insn.next + disp, disp, s.relDisp.offset, insn.dispSize⟩
        dispOffset := s.opsiz
        opsiz := s.opsiz + insn.dispSize / 8 }
    else { s with opsiz := s.opsiz + insn.dispSize / 8 }
  | .mem | .disp => { s with opsiz := s.opsiz + insn.dispSize / 8 }
  | .none | .other => s

/-- The loop, which ends at the first `O_NONE`. -/
def scanOperands : DiScan w :=
  (insn.ops.takeWhile (·.type ≠ .none)).foldl insn.scanOperand ⟨0, 0, 0, .zero, .zero⟩

/-- The estimated size of what stands behind the opcode. -/
def opsiz : ℕ := insn.scanOperands.opsiz + if insn.opcode.listed then 1 else 0

/-- `rel_disp` of `funchook_disasm_x86_rip_relative` -/
def relDisp : RipRelative w :=
  let rel := insn.scanOperands.relDisp
  if rel.size > 0 then
    { rel with offset := insn.size + insn.scanOperands.dispOffset - insn.opsiz }
  else rel

/-- `rel_imm` of `funchook_disasm_x86_rip_relative` -/
def relImm : RipRelative w :=
  let rel := insn.scanOperands.relImm
  if rel.size > 0 then
    { rel with offset := insn.size + insn.scanOperands.immOffset - insn.opsiz }
  else rel

/-- The instruction that `funchook_make_trampoline` sees; the branch address is
`INSTRUCTION_GET_TARGET`. -/
def toInsn : Insn w :=
  ⟨insn.size, insn.addr, insn.next + insn.immAddr.setWidth w, insn.relDisp, insn.relImm⟩

end DiInsn

/-- `distorm_decompose64` on the check window of a function: `decres`, and the instructions. -/
abbrev DiDecompose (w : ℕ) := Mem w → Addr w → ℕ × List (DiInsn w)

/-- `DECRES_SUCCESS` -/
def decresSuccess : ℕ := 1

/-- The disassembler that `funchook_make_trampoline` sees. -/
def diDecode (decompose : DiDecompose w) : Disasm w := fun m func =>
  let (decres, insns) := decompose m func
  if decres ≠ decresSuccess then
    .error ⟨errorDisassembly, "Disassemble Error: " ++ toString decres⟩
  else .ok (insns.map DiInsn.toInsn)

/-! ## What diStorm reports -/

/-- The operand takes part in the estimate. -/
def DiInsn.encodes (insn : DiInsn w) (op : DiOperand) : Bool :=
  match op.type with
  | .imm | .pc => true
  | .smem | .mem | .disp => insn.dispSize ≠ 0
  | .none | .other => false

/-- The memory operand of the layout. -/
structure IsMemOperand (L : InsnLayout w) (op : DiOperand) : Prop where
  type : op.type = .smem ∨ op.type = .mem ∨ op.type = .disp
  rip : op.type = .smem ∧ op.index = .rip ↔ L.ripRelative = true

/-- The documented contents of a decoded instruction. The operands that are encoded behind the
opcode are listed in the order of the encoding, with the sizes they have there; no relative branch
is one of the opcodes of the last switch. -/
structure DiReports (m : Mem w) (L : InsnLayout w) (insn : DiInsn w) : Prop where
  addr : insn.addr = L.address
  size : insn.size = L.size
  dispSize : insn.dispSize = L.dispSize * 8
  dispValue : L.ripRelative = true → insn.disp.setWidth w = L.disp m
  immValue : L.relativeBranch = true → insn.immAddr.setWidth w = L.imm m
  operands : ∃ mems imms,
    (insn.ops.takeWhile (·.type ≠ .none)).filter insn.encodes = mems ++ imms ∧
      (L.dispSize = 0 → mems = []) ∧ (L.dispSize ≠ 0 → ∃ op, mems = [op] ∧ IsMemOperand L op) ∧
        imms.map (fun op => (op.type, op.size)) = L.imms.map fun n =>
          (if L.relativeBranch then .pc else .imm, n * 8)
  branch : L.relativeBranch = true → insn.opcode.listed = false

namespace DiInsn

variable {insn : DiInsn w}

/-- An operand that is not encoded changes nothing. -/
theorem scanOperand_of_not_encodes {op : DiOperand} (h : insn.encodes op = false)
    (s : DiScan w) : insn.scanOperand s op = s := by
  unfold encodes at h
  unfold scanOperand
  cases htype : op.type with
  | imm | pc =>
    rw [htype] at h
    cases h
  | none | other => rfl
  | smem | mem | disp =>
    have hzero : insn.dispSize = 0 := by simpa [htype] using h
    simp [hzero]

theorem scanOperands_filter (ops : List DiOperand) (s : DiScan w) :
    ops.foldl insn.scanOperand s = (ops.filter insn.encodes).foldl insn.scanOperand s := by
  induction ops generalizing s with
  | nil => rfl
  | cons op ops ih =>
    cases h : insn.encodes op with
    | true => rw [List.filter_cons_of_pos h, List.foldl_cons, List.foldl_cons, ih]
    | false =>
      rw [List.filter_cons_of_neg (by rw [h]; decide), List.foldl_cons,
        scanOperand_of_not_encodes h, ih]

/-- Immediates add their sizes. -/
theorem scan_imms {imms : List DiOperand} {sizes : List ℕ} (s : DiScan w)
    (h : imms.map (fun op => (op.type, op.size)) = sizes.map fun n => (.imm, n * 8)) :
    imms.foldl insn.scanOperand s = { s with opsiz := s.opsiz + sizes.sum } := by
  induction imms generalizing sizes s with
  | nil =>
    obtain rfl : sizes = [] := by simpa using h.symm
    rfl
  | cons op imms ih =>
    cases sizes with
    | nil => cases h
    | cons n sizes =>
      simp only [List.map_cons, List.cons.injEq, Prod.mk.injEq] at h
      have hop : insn.scanOperand s op = { s with opsiz := s.opsiz + n } := by
        unfold scanOperand
        rw [h.1.1, h.1.2]
        simp
      rw [List.foldl_cons, hop, ih _ h.2, List.sum_cons, Nat.add_assoc]

end DiInsn

section Reports

variable {m : Mem w} {L : InsnLayout w} {insn : DiInsn w}

theorem DiReports.next (h : DiReports m L insn) : insn.next = L.next := by
  rw [DiInsn.next, InsnLayout.next, h.addr, h.size]

/-- The memory operand, which comes first. -/
theorem DiReports.scan_mem (h : DiReports m L insn) (hdisp : L.dispSize ≠ 0) {op : DiOperand}
    (hmem : IsMemOperand L op) :
    insn.scanOperand ⟨0, 0, 0, .zero, .zero⟩ op = ⟨L.dispSize, 0, 0,
      if L.ripRelative then ⟨L.next + L.disp m, L.disp m, 0, L.dispSize * 8⟩ else .zero, .zero⟩ := by
  have hsize : insn.dispSize / 8 = L.dispSize := by
    rw [h.dispSize]
    omega
  have hne : insn.dispSize ≠ 0 := by
    rw [h.dispSize]
    omega
  unfold DiInsn.scanOperand
  cases hrip : L.ripRelative with
  | true =>
    obtain ⟨htype, hindex⟩ := hmem.rip.mpr hrip
    rw [htype]
    dsimp only
    rw [if_pos ⟨hne, hindex⟩, hsize, h.next, h.dispValue hrip, h.dispSize, Nat.zero_add]
    rfl
  | false =>
    have hnot : ¬ (op.type = .smem ∧ op.index = .rip) := fun hand => by
      rw [hmem.rip.mp hand] at hrip
      cases hrip
    rcases hmem.type with htype | htype | htype
    · rw [htype]
      dsimp only
      rw [if_neg fun hand => hnot ⟨htype, hand.2⟩, hsize, Nat.zero_add]
      rfl
    · rw [htype]
      dsimp only
      rw [hsize, Nat.zero_add]
      rfl
    · rw [htype]
      dsimp only
      rw [hsize, Nat.zero_add]
      rfl

/-- The loop over the operands of an instruction without a PC-relative branch. -/
theorem DiReports.scan_disp (h : DiReports m L insn) (hbranch : L.relativeBranch = false) :
    insn.scanOperands = ⟨L.dispSize + L.imms.sum, 0, 0,
      if L.ripRelative then ⟨L.next + L.disp m, L.disp m, 0, L.dispSize * 8⟩ else .zero, .zero⟩ := by
  obtain ⟨mems, imms, hops, hnone, hone, himms⟩ := h.operands
  rw [hbranch] at himms
  rw [DiInsn.scanOperands, DiInsn.scanOperands_filter, hops, List.foldl_append]
  by_cases hzero : L.dispSize = 0
  · have hrip : L.ripRelative = false := by
      cases hrip : L.ripRelative with
      | false => rfl
      | true =>
        rw [L.disp_of_rip hrip] at hzero
        cases hzero
    rw [hnone hzero, List.foldl_nil, DiInsn.scan_imms _ himms, hrip, hzero]
    rfl
  · obtain ⟨op, rfl, hmem⟩ := hone hzero
    rw [List.foldl_cons, List.foldl_nil, h.scan_mem hzero hmem, DiInsn.scan_imms _ himms]

/-- The loop over the operands of a relative branch. -/
theorem DiReports.scan_branch (h : DiReports m L insn) (hbranch : L.relativeBranch = true) :
    insn.scanOperands = ⟨L.immSize, 0, 0, .zero, ⟨L.next + L.imm m, L.imm m, 0, L.immSize * 8⟩⟩ := by
  obtain ⟨hdisp, -, n, hn, -⟩ := L.imm_of_branch hbranch
  obtain ⟨mems, imms, hops, hnone, -, himms⟩ := h.operands
  have hsize : L.immSize = n := by rw [InsnLayout.immSize, hn]; rfl
  rw [hbranch, hn] at himms
  obtain ⟨op, rfl, hop⟩ := List.map_eq_singleton_iff.mp himms
  rw [Prod.mk.injEq] at hop
  rw [DiInsn.scanOperands, DiInsn.scanOperands_filter, hops, hnone hdisp, List.nil_append,
    List.foldl_cons, List.foldl_nil]
  unfold DiInsn.scanOperand
  rw [hop.1, hop.2]
  simp only [if_true, h.next, h.immValue hbranch, hsize, Nat.zero_add,
    Nat.mul_div_cancel n (by decide : 0 < 8)]
  rfl

/-- Where the displacement is estimated to lie. -/
theorem DiReports.relDisp_eq (h : DiReports m L insn) (hrip : L.ripRelative = true) :
    insn.relDisp = { L.relDisp m with
      offset := L.head + L.tail - if insn.opcode.listed then 1 else 0 } := by
  have hbranch : L.relativeBranch = false := by
    cases hbranch : L.relativeBranch with
    | false => rfl
    | true =>
      have hfour := L.disp_of_rip hrip
      rw [(L.imm_of_branch hbranch).1] at hfour
      cases hfour
  have hfour := L.disp_of_rip hrip
  have hsize := (InsnLayout.rip_disp hrip).2
  unfold DiInsn.relDisp DiInsn.opsiz
  rw [h.scan_disp hbranch, hrip, InsnLayout.relDisp, hrip]
  simp only [if_true, hfour, h.size, Nat.add_zero]
  rw [if_pos (by decide)]
  congr 1
  rw [hsize]
  omega

/-- **What diStorm leads to.** The field of a memory operand lies where it is estimated exactly when
the byte behind the operands is counted. -/
theorem DiReports.relDisp_iff (h : DiReports m L insn) :
    insn.relDisp = L.relDisp m ↔
      (L.ripRelative = true → L.tail = if insn.opcode.listed then 1 else 0) := by
  cases hrip : L.ripRelative with
  | true =>
    have hhead := L.head_pos
    have hoff := (InsnLayout.rip_disp hrip).1
    have hcounted : (if insn.opcode.listed then 1 else 0) ≤ 1 := by split <;> decide
    rw [h.relDisp_eq hrip]
    constructor
    · intro heq _
      have hoffset := congrArg RipRelative.offset heq
      rw [InsnLayout.relDisp, hrip] at hoffset
      simp only [if_true, hoff] at hoffset
      omega
    · intro htail
      rw [htail rfl, Nat.add_sub_cancel, InsnLayout.relDisp, hrip]
      simp only [if_true, hoff]
  | false =>
    refine iff_of_true ?_ fun htrue => by cases htrue
    have hzero : insn.scanOperands.relDisp = .zero := by
      cases hbranch : L.relativeBranch with
      | true => rw [h.scan_branch hbranch]
      | false => rw [h.scan_disp hbranch, hrip]; rfl
    unfold DiInsn.relDisp
    rw [hzero, InsnLayout.relDisp, hrip]
    rfl

/-- The field of a relative branch lies where it is estimated. -/
theorem DiReports.relImm (h : DiReports m L insn) : insn.relImm = L.relImm m := by
  cases hbranch : L.relativeBranch with
  | true =>
    obtain ⟨hdisp, htail, n, hn, hcases⟩ := L.imm_of_branch hbranch
    have himm : L.immSize = n := by rw [InsnLayout.immSize, hn]; rfl
    have hsize : L.size = L.head + n := by simp [InsnLayout.size, hn, hdisp, htail]
    have hoff : L.immOffset = L.head := by simp [InsnLayout.immOffset, hn, hdisp]
    unfold DiInsn.relImm DiInsn.opsiz
    rw [h.scan_branch hbranch, InsnLayout.relImm, hbranch, InsnLayout.immField]
    simp only [h.branch hbranch, if_true, h.size, himm, hoff]
    rw [if_pos (by omega), hsize]
    simp
  | false =>
    have hzero : insn.scanOperands.relImm = .zero := by rw [h.scan_disp hbranch]
    unfold DiInsn.relImm
    rw [hzero, InsnLayout.relImm, hbranch]
    rfl

end Reports

end Funchook.X86
