import Funchook.TrampolineX86

/-!
# Where the parts of an instruction lie (x86 and x86-64)

What a disassembler reports about an instruction is compared with its encoding: prefixes, opcode,
ModRM and SIB come first, then the displacement of a memory operand, the immediates, and for some
instructions a byte behind the operands that belongs to the opcode. The PC-relative field is the
displacement of an operand based on the instruction pointer, or the immediate of a relative
branch.
-/

namespace Funchook.X86

open ByteMemory

variable {w : ℕ}

/-- The sizes are in bytes. -/
structure InsnLayout (w : ℕ) where
  address : Addr w
  /-- everything before the displacement -/
  head : ℕ
  dispSize : ℕ
  imms : List ℕ
  /-- what stands behind the operands -/
  tail : ℕ
  /-- The memory operand is based on the instruction pointer. -/
  ripRelative : Bool
  /-- The immediate is the displacement of a branch. -/
  relativeBranch : Bool
  head_pos : 1 ≤ head
  imms_pos : ∀ n ∈ imms, 1 ≤ n
  size_le : head + dispSize + imms.sum + tail ≤ 15
  disp_of_rip : ripRelative = true → dispSize = 4
  imm_of_branch : relativeBranch = true → dispSize = 0 ∧ tail = 0 ∧
    ∃ n, imms = [n] ∧ (n = 1 ∨ n = 2 ∨ n = 4)

theorem no_imms : ∀ n ∈ ([] : List ℕ), 1 ≤ n := fun _ h => absurd h List.not_mem_nil

/-- The signed value of `n` bytes. -/
def signedWord (n : ℕ) (m : Mem w) (a : Addr w) : BitVec w := (readWord n m a).signExtend w

/-- No PC-relative field. -/
def RipRelative.zero : RipRelative w := ⟨0, 0, 0, 0⟩

namespace InsnLayout

variable (L : InsnLayout w)

def size : ℕ := L.head + L.dispSize + L.imms.sum + L.tail

def next : Addr w := L.address + BitVec.ofNat w L.size

/-- The value of the displacement. -/
def disp (m : Mem w) : BitVec w := signedWord L.dispSize m (L.address + BitVec.ofNat w L.head)

/-- The size of the first immediate, and its offset, both zero without one. -/
def immSize : ℕ := L.imms.headD 0

def immOffset : ℕ := if L.imms = [] then 0 else L.head + L.dispSize

def dispOffset : ℕ := if L.dispSize = 0 then 0 else L.head

/-- The value of the first immediate. -/
def imm (m : Mem w) : BitVec w :=
  signedWord L.immSize m (L.address + BitVec.ofNat w L.immOffset)

/-- The field of an operand based on the instruction pointer. -/
def relDisp (m : Mem w) : RipRelative w :=
  if L.ripRelative then ⟨L.next + L.disp m, L.disp m, L.dispOffset, L.dispSize * 8⟩ else .zero

/-- The first immediate as a field relative to the next instruction. -/
def immField (m : Mem w) : RipRelative w :=
  ⟨L.next + L.imm m, L.imm m, L.immOffset, L.immSize * 8⟩

/-- The field of a relative branch. -/
def relImm (m : Mem w) : RipRelative w := if L.relativeBranch then L.immField m else .zero

variable {L}

theorem size_pos : 1 ≤ L.size := by
  have := L.head_pos
  unfold size
  omega

theorem branch_imms (h : L.relativeBranch = true) : L.imms ≠ [] := by
  obtain ⟨-, -, n, himms, -⟩ := L.imm_of_branch h
  rw [himms]
  exact List.cons_ne_nil n []

theorem imm_inside (h : L.imms ≠ []) : 1 ≤ L.immOffset ∧ L.immOffset + L.immSize ≤ L.size := by
  have hhead := L.head_pos
  obtain ⟨n, rest, himms⟩ := List.exists_cons_of_ne_nil h
  simp only [immOffset, size, immSize, himms, List.cons_ne_nil, if_false, List.headD_cons,
    List.sum_cons]
  omega

theorem rip_disp (h : L.ripRelative = true) :
    L.dispOffset = L.head ∧ L.size = L.head + 4 + L.imms.sum + L.tail := by
  simp [dispOffset, size, L.disp_of_rip h]

theorem signedWord_four (m : Mem w) (a : Addr w) :
    signedWord 4 m a = (readWord 4 m a : BitVec 32).signExtend w := rfl

/-- The first immediate, taken for a field, is reported as the trampoline needs it. -/
theorem immField_reported {m : Mem w} {insn : Insn w} (haddr : insn.address = L.address)
    (hsize : insn.size = L.size) (h : L.imms ≠ []) : FieldReported m insn (L.immField m) := by
  obtain ⟨hpos, hinside⟩ := imm_inside h
  refine ⟨hpos, ?_, fun h32 => ?_⟩
  · rw [hsize, immField, Nat.mul_div_cancel _ (by decide)]
    exact hinside
  · have hfour : L.immSize = 4 := by
      simp only [immField] at h32
      omega
    simp only [immField, next, imm, hfour, haddr, hsize, signedWord_four]

/-- So is the displacement of a memory operand. -/
theorem relDisp_reported {m : Mem w} {insn : Insn w} (haddr : insn.address = L.address)
    (hsize : insn.size = L.size) (h : (L.relDisp m).size ≠ 0) :
    FieldReported m insn (L.relDisp m) := by
  cases hrip : L.ripRelative with
  | false =>
    rw [relDisp, hrip] at h
    exact absurd rfl h
  | true =>
    obtain ⟨hoff, hlen⟩ := rip_disp hrip
    have hhead := L.head_pos
    have hfour := L.disp_of_rip hrip
    rw [relDisp, if_pos hrip, hoff]
    refine ⟨hhead, by simp only; omega, fun _ => ?_⟩
    simp only [next, disp, hfour, haddr, hsize, signedWord_four]

/-- **An instruction with the fields of its layout** is reported as the trampoline needs it. -/
theorem reported {m : Mem w} {insn : Insn w} (haddr : insn.address = L.address)
    (hsize : insn.size = L.size) (hdisp : insn.relDisp = L.relDisp m)
    (himm : insn.relImm = L.relImm m) : InsnReported m insn where
  size_pos := hsize ▸ size_pos
  size_le := hsize ▸ L.size_le
  one_field := by
    rw [hdisp, himm, relDisp, relImm]
    cases hrip : L.ripRelative with
    | false => exact Or.inl rfl
    | true =>
      cases hbranch : L.relativeBranch with
      | false => exact Or.inr rfl
      | true =>
        have hfour := L.disp_of_rip hrip
        rw [(L.imm_of_branch hbranch).1] at hfour
        cases hfour
  disp h := by
    rw [hdisp] at h ⊢
    exact relDisp_reported haddr hsize h
  imm h := by
    rw [himm] at h ⊢
    cases hbranch : L.relativeBranch with
    | false =>
      rw [relImm, hbranch] at h
      exact absurd rfl h
    | true =>
      rw [relImm, if_pos hbranch]
      exact immField_reported haddr hsize (branch_imms hbranch)

/-- Two accounts of one encoding: what stands behind the displacement may be an immediate for the
one and belong to the opcode for the other, as the predicate of a comparison does. -/
structure SameEncoding (L L' : InsnLayout w) : Prop where
  address : L.address = L'.address
  head : L.head = L'.head
  dispSize : L.dispSize = L'.dispSize
  rest : L.imms.sum + L.tail = L'.imms.sum + L'.tail
  ripRelative : L.ripRelative = L'.ripRelative
  relativeBranch : L.relativeBranch = L'.relativeBranch

namespace SameEncoding

variable {L' : InsnLayout w}

theorem next (h : L.SameEncoding L') : L.next = L'.next := by
  have hsize : L.size = L'.size := by
    have hrest := h.rest
    simp only [size, h.head, h.dispSize]
    omega
  rw [InsnLayout.next, InsnLayout.next, h.address, hsize]

theorem relDisp (h : L.SameEncoding L') (m : Mem w) : L.relDisp m = L'.relDisp m := by
  have hoffset : L.dispOffset = L'.dispOffset := by rw [dispOffset, dispOffset, h.dispSize, h.head]
  have hdisp : L.disp m = L'.disp m := by rw [disp, disp, h.dispSize, h.address, h.head]
  rw [InsnLayout.relDisp, InsnLayout.relDisp, h.ripRelative, h.next, hdisp, hoffset, h.dispSize]

/-- Nothing stands behind the displacement of a branch. -/
theorem imms_of_branch (h : L.SameEncoding L') (hbranch : L'.relativeBranch = true) :
    L.imms = L'.imms := by
  obtain ⟨-, htail, n, hn, -⟩ := L.imm_of_branch (h.relativeBranch.trans hbranch)
  obtain ⟨-, htail', n', hn', -⟩ := L'.imm_of_branch hbranch
  have hrest := h.rest
  simp only [hn, hn', htail, htail', List.sum_singleton, Nat.add_zero] at hrest
  rw [hn, hn', hrest]

theorem immSize (h : L.SameEncoding L') (hbranch : L'.relativeBranch = true) :
    L.immSize = L'.immSize := by
  rw [InsnLayout.immSize, InsnLayout.immSize, h.imms_of_branch hbranch]

theorem immOffset (h : L.SameEncoding L') (hbranch : L'.relativeBranch = true) :
    L.immOffset = L'.immOffset := by
  rw [InsnLayout.immOffset, InsnLayout.immOffset, h.imms_of_branch hbranch, h.head, h.dispSize]

theorem imm (h : L.SameEncoding L') (hbranch : L'.relativeBranch = true) (m : Mem w) :
    L.imm m = L'.imm m := by
  rw [InsnLayout.imm, InsnLayout.imm, h.address, h.immSize hbranch, h.immOffset hbranch]

theorem relImm (h : L.SameEncoding L') (m : Mem w) : L.relImm m = L'.relImm m := by
  rw [InsnLayout.relImm, InsnLayout.relImm, h.relativeBranch]
  split
  · rename_i hbranch
    rw [immField, immField, h.next, h.imm hbranch, h.immSize hbranch, h.immOffset hbranch]
  · rfl

end SameEncoding

end InsnLayout

end Funchook.X86
