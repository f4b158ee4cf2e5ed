import Funchook.ArchX86

/-!
# Relative fields reported through Capstone (`disasm_capstone.c`, x86 and x86-64)

`funchook_disasm_x86_rip_relative` finds the relative branch and the RIP-relative operand of an
instruction in the details that Capstone reports, and computes their addresses from the
displacements. It reads displacements of four bytes and of one byte; one of two bytes counts as
zero.
-/

namespace Funchook.X86

open ByteMemory

variable {w : ℕ}

/-- `detail->groups`, of which one matters here. -/
inductive CsGroup where
  | branchRelative
  | other
  deriving DecidableEq, Repr

/-- The base register of a memory operand. -/
inductive CsReg where
  | rip
  | other
  deriving DecidableEq, Repr

/-- `cs_x86_op` -/
inductive CsOp where
  | reg
  | imm (value : BitVec 64)
  | mem (base : CsReg)
  deriving DecidableEq, Repr

/-- `cs_x86_encoding`: offsets and sizes in bytes, an offset of zero when the part is absent. -/
structure CsEncoding where
  immOffset : ℕ
  immSize : ℕ
  dispOffset : ℕ
  dispSize : ℕ
  deriving DecidableEq, Repr

/-- `cs_insn` with the details the library reads. -/
structure CsInsn (w : ℕ) where
  address : Addr w
  size : ℕ
  bytes : List Byte
  groups : List CsGroup
  encoding : CsEncoding
  disp : BitVec 64
  operands : List CsOp
  deriving DecidableEq, Repr

/-- `cs_disasm` on the check window of a function. -/
abbrev CsDisasm (w : ℕ) := Mem w → Addr w → Except Failure (List (CsInsn w))

/-- The displacement of a relative branch, as far as it is read. -/
def CsInsn.branchImm (insn : CsInsn w) : BitVec w :=
  if insn.encoding.immSize = 4 then
    (bufWord 4 insn.bytes insn.encoding.immOffset : BitVec 32).signExtend w
  else if insn.encoding.immSize = 1 then
    (bufWord 1 insn.bytes insn.encoding.immOffset : BitVec 8).signExtend w
  else 0

def CsInsn.next (insn : CsInsn w) : Addr w := insn.address + BitVec.ofNat w insn.size

/-- `rel_imm` of `funchook_disasm_x86_rip_relative` -/
def CsInsn.relImm (insn : CsInsn w) : RipRelative w :=
  if insn.encoding.immOffset ≠ 0 ∧ CsGroup.branchRelative ∈ insn.groups then
    ⟨insn.next + insn.branchImm, insn.branchImm, insn.encoding.immOffset,
      insn.encoding.immSize * 8⟩
  else ⟨0, 0, 0, 0⟩

/-- `rel_disp` of `funchook_disasm_x86_rip_relative` -/
def CsInsn.relDisp (insn : CsInsn w) : RipRelative w :=
  if insn.encoding.dispOffset ≠ 0 ∧ CsOp.mem .rip ∈ insn.operands then
    let disp := insn.disp.setWidth w
    ⟨insn.next + disp, disp, insn.encoding.dispOffset, insn.encoding.dispSize * 8⟩
  else ⟨0, 0, 0, 0⟩

/-- `operands[0].imm`. The library reads it after the opcode `e8` only, where it is an immediate. -/
def CsInsn.branchAddress (insn : CsInsn w) : Addr w :=
  match insn.operands with
  | .imm value :: _ => value.setWidth w
  | _ => 0

def CsInsn.toInsn (insn : CsInsn w) : Insn w :=
  ⟨insn.size, insn.address, insn.branchAddress, insn.relDisp, insn.relImm⟩

/-- The disassembler that `funchook_make_trampoline` sees. -/
def csDecode (cs : CsDisasm w) : Disasm w := fun m func => (cs m func).map (·.map CsInsn.toInsn)

/-! ## Branches and their targets -/

/-- A relative jump, call or loop, according to its group. -/
def CsInsn.IsBranch (insn : CsInsn w) : Prop := CsGroup.branchRelative ∈ insn.groups

instance (insn : CsInsn w) : Decidable insn.IsBranch :=
  inferInstanceAs (Decidable (_ ∈ insn.groups))

/-- Where the processor goes when it takes the relative branch at `insn.address`: the displacement
counts from the next instruction, and a 16-bit one leaves 16 bits of the sum. -/
def branchTarget (m : Mem w) (insn : CsInsn w) : Addr w :=
  let pos := insn.address + BitVec.ofNat w insn.encoding.immOffset
  if insn.encoding.immSize = 4 then insn.next + (readWord 4 m pos : BitVec 32).signExtend w
  else if insn.encoding.immSize = 1 then insn.next + (readWord 1 m pos : BitVec 8).signExtend w
  else ((insn.next + (readWord 2 m pos : BitVec 16).signExtend w).setWidth 16).setWidth w

/-- What Capstone reports: the bytes of the instruction, and where in them its parts lie. A
relative branch has a displacement of one, two or four bytes after its opcode. -/
structure CsReported (m : Mem w) (insn : CsInsn w) : Prop where
  size_pos : 1 ≤ insn.size
  size_le : insn.size ≤ 15
  bytes : ∀ i < insn.size, insn.bytes[i]? = some (m (insn.address + BitVec.ofNat w i))
  branch : insn.IsBranch → insn.encoding.immOffset ≠ 0 ∧
    (insn.encoding.immSize = 1 ∨ insn.encoding.immSize = 2 ∨ insn.encoding.immSize = 4)
  imm : insn.encoding.immOffset + insn.encoding.immSize ≤ insn.size
  disp : insn.encoding.dispOffset + insn.encoding.dispSize ≤ insn.size

/-- A word of the reported bytes is the word of the code. -/
theorem CsReported.word {m : Mem w} {insn : CsInsn w} (h : CsReported m insn) {n off : ℕ}
    (hin : off + n ≤ insn.size) :
    bufWord n insn.bytes off = readWord n m (insn.address + BitVec.ofNat w off) := by
  apply leWord_congr
  intro i hi
  rw [h.bytes (off + i) (by omega), BitVec.add_assoc, ← BitVec.ofNat_add]
  rfl

theorem CsReported.relImm_size {m : Mem w} {insn : CsInsn w} (h : CsReported m insn)
    (hbranch : insn.IsBranch) : insn.relImm.size = insn.encoding.immSize * 8 := by
  rw [CsInsn.relImm, if_pos ⟨(h.branch hbranch).1, hbranch⟩]

theorem CsReported.relImm_size_ne {m : Mem w} {insn : CsInsn w} (h : CsReported m insn)
    (hbranch : insn.IsBranch) : insn.relImm.size ≠ 0 := by
  rw [h.relImm_size hbranch]
  have := (h.branch hbranch).2
  omega

/-- The reported address is the target, except after a displacement of two bytes. -/
theorem CsReported.relImm_addr {m : Mem w} {insn : CsInsn w} (h : CsReported m insn)
    (hbranch : insn.IsBranch) (hsize : insn.encoding.immSize ≠ 2) :
    insn.relImm.addr = branchTarget m insn := by
  obtain ⟨hoff, hsizes⟩ := h.branch hbranch
  have hin := h.imm
  rw [CsInsn.relImm, if_pos ⟨hoff, hbranch⟩, branchTarget]
  show insn.next + insn.branchImm = _
  rw [CsInsn.branchImm]
  by_cases h4 : insn.encoding.immSize = 4
  · rw [if_pos h4, if_pos h4, h.word (by omega)]
  · have h1 : insn.encoding.immSize = 1 := by omega
    rw [if_neg h4, if_neg h4, if_pos h1, if_pos h1, h.word (by omega)]

end Funchook.X86
