import Funchook.InsnLayout

/-!
# Decoding through Zydis (`disasm_Zydis.c`)

The instructions are decoded one at a time. A pointer into the code and the address of the next
instruction are kept side by side, and the address of an instruction is what is left when its
length is taken off again. Decoding ends where Zydis fails, at the latest when no bytes of the
window are left.
-/

namespace Funchook.X86

open ByteMemory

variable {w : ℕ}

/-- `ZydisBranchType` -/
inductive ZyBranchType where
  | none
  | short
  | near
  | far
  deriving DecidableEq, Repr

/-- The base register of a memory operand. -/
inductive ZyReg where
  | rip
  | other
  deriving DecidableEq, Repr

/-- `op->mem`, as far as it is read. -/
structure ZyOperand where
  hasDisplacement : Bool
  base : ZyReg
  deriving DecidableEq, Repr

/-- `raw.imm[0]` or `raw.disp`: the offset in bytes, zero when the part is absent, and the size in
bits. -/
structure ZyRaw where
  offset : ℕ
  size : ℕ
  value : BitVec 64
  deriving DecidableEq, Repr

/-- `ZydisDecodedInstruction` with its operands. -/
structure ZyInsn where
  length : ℕ
  branchType : ZyBranchType
  imm0 : ZyRaw
  disp : ZyRaw
  operands : List ZyOperand
  deriving DecidableEq, Repr

/-- `ZydisDecoderDecodeFull` on the bytes that are left. -/
abbrev ZyDecoder := List Byte → Option ZyInsn

/-- `funchook_insn_t` -/
structure ZyFunchookInsn (w : ℕ) where
  insn : ZyInsn
  nextAddress : Addr w
  deriving DecidableEq, Repr

/-- `funchook_disasm_t` without the decoder: `insn.next_address`, `code` and `code_end`. -/
structure ZyDisasm (w : ℕ) where
  nextAddress : Addr w
  code : Addr w
  codeEnd : Addr w
  deriving DecidableEq, Repr

/-- What `%PRIx64` prints. -/
def fmtHex (v : BitVec 64) : String := String.ofList (Nat.toDigits 16 v.toNat)

/-- `funchook_disasm_init`, from `ZydisGetVersion()` and `ZYDIS_VERSION`. -/
def ZyDisasm.init (version expected : BitVec 64) (func : Addr w) : Except Failure (ZyDisasm w) :=
  if version ≠ expected then
    .error ⟨errorInternalError, "Invalid zydis version: expecte 0x" ++ fmtHex expected ++
      " but 0x" ++ fmtHex version⟩
  else .ok ⟨func, func, func + BitVec.ofNat w maxInsnCheckSize⟩

/-- `funchook_disasm_next`, `none` for `FUNCHOOK_ERROR_END_OF_INSTRUCTION`. -/
def ZyDisasm.next (decoder : ZyDecoder) (m : Mem w) (d : ZyDisasm w) :
    Option (ZyFunchookInsn w × ZyDisasm w) :=
  let codeSize := (d.codeEnd - d.code).toNat
  (decoder (readBytes m d.code codeSize)).map fun insn =>
    let nextAddress := d.nextAddress + BitVec.ofNat w insn.length
    (⟨insn, nextAddress⟩, { d with nextAddress, code := d.code + BitVec.ofNat w insn.length })

namespace ZyFunchookInsn

variable (zi : ZyFunchookInsn w)

/-- `funchook_insn_address` -/
def address : Addr w := zi.nextAddress - BitVec.ofNat w zi.insn.length

/-- `rel_imm` of `funchook_disasm_x86_rip_relative` -/
def relImm : RipRelative w :=
  if zi.insn.imm0.offset ≠ 0 ∧ zi.insn.branchType ≠ .none then
    let value := zi.insn.imm0.value.setWidth w
    ⟨zi.nextAddress + value, value, zi.insn.imm0.offset, zi.insn.imm0.size⟩
  else .zero

/-- `rel_disp` of `funchook_disasm_x86_rip_relative`: the first operand based on the instruction
pointer ends the search, and all of them have the same displacement. -/
def relDisp : RipRelative w :=
  if zi.insn.disp.offset ≠ 0 ∧ ⟨true, .rip⟩ ∈ zi.insn.operands then
    let value := zi.insn.disp.value.setWidth w
    ⟨zi.nextAddress + value, value, zi.insn.disp.offset, zi.insn.disp.size⟩
  else .zero

/-- The instruction that `funchook_make_trampoline` sees; the branch address is
`funchook_insn_branch_address`. -/
def toInsn : Insn w :=
  ⟨zi.insn.length, zi.address, zi.nextAddress + zi.insn.imm0.value.setWidth w, zi.relDisp,
    zi.relImm⟩

end ZyFunchookInsn

/-- The results of at most `fuel` calls of `funchook_disasm_next`. -/
def ZyDisasm.insns (decoder : ZyDecoder) (m : Mem w) : ℕ → ZyDisasm w → List (ZyFunchookInsn w)
  | 0, _ => []
  | fuel + 1, d =>
    match d.next decoder m with
    | none => []
    | some (zi, d) => zi :: insns decoder m fuel d

/-- The disassembler. An instruction takes at least a byte, so the window has no more instructions
than bytes. -/
def zyDecode (version expected : BitVec 64) (decoder : ZyDecoder) : Disasm w := fun m func =>
  (ZyDisasm.init version expected func).map fun d =>
    (d.insns decoder m maxInsnCheckSize).map ZyFunchookInsn.toInsn

/-! ## What Zydis reports -/

/-- The documented contents of a decoded instruction: its length, and the parts of its encoding.
A relative branch is a branch; a branch through memory has no immediate. -/
structure ZyReports (m : Mem w) (L : InsnLayout w) (zy : ZyInsn) : Prop where
  length : zy.length = L.size
  immOffset : zy.imm0.offset = L.immOffset
  immSize : zy.imm0.size = L.immSize * 8
  immValue : zy.branchType ≠ .none → L.relativeBranch = true ∨ L.immSize = 4 →
    zy.imm0.value.setWidth w = L.imm m
  branch : L.relativeBranch = true → zy.branchType ≠ .none
  one_field : zy.branchType ≠ .none → L.ripRelative = true → L.imms = []
  dispOffset : zy.disp.offset = L.dispOffset
  dispSize : zy.disp.size = L.dispSize * 8
  dispValue : zy.disp.value.setWidth w = L.disp m
  rip : ⟨true, .rip⟩ ∈ zy.operands ↔ L.ripRelative = true

/-- Zydis decodes the code in `m`, which has the encodings `layout`, as documented: never more bytes
than it was given. -/
def ZyDecodes (decoder : ZyDecoder) (m : Mem w) (layout : Addr w → InsnLayout w) : Prop :=
  ∀ a n zy, decoder (readBytes m a n) = some zy →
    zy.length ≤ n ∧ (layout a).address = a ∧ ZyReports m (layout a) zy

section Reports

variable {m : Mem w} {L : InsnLayout w} {zi : ZyFunchookInsn w}

theorem ZyReports.imm0_offset (h : ZyReports m L zi.insn) :
    zi.insn.imm0.offset ≠ 0 ↔ L.imms ≠ [] := by
  rw [h.immOffset]
  refine ⟨fun hoff hnil => hoff (if_pos hnil), fun hne => ?_⟩
  have := (InsnLayout.imm_inside hne).1
  omega

/-- The displacement is reported where it lies. -/
theorem ZyReports.relDisp (h : ZyReports m L zi.insn) (hnext : zi.nextAddress = L.next) :
    zi.relDisp = L.relDisp m := by
  rw [ZyFunchookInsn.relDisp, InsnLayout.relDisp]
  by_cases hrip : L.ripRelative = true
  · have hhead := L.head_pos
    have hoff := (InsnLayout.rip_disp hrip).1
    rw [if_pos ⟨by rw [h.dispOffset]; omega, h.rip.mpr hrip⟩, if_pos hrip]
    simp only [hnext, h.dispValue, h.dispOffset, h.dispSize]
  · rw [if_neg fun hcond => hrip (h.rip.mp hcond.2), if_neg hrip]

/-- The field of a relative branch is reported where it lies. -/
theorem ZyReports.relImm_of_branch (h : ZyReports m L zi.insn) (hnext : zi.nextAddress = L.next)
    (hbranch : L.relativeBranch = true) : zi.relImm = L.relImm m := by
  have himms := InsnLayout.branch_imms hbranch
  have htype := h.branch hbranch
  rw [ZyFunchookInsn.relImm, InsnLayout.relImm, if_pos ⟨h.imm0_offset.mpr himms, htype⟩,
    if_pos hbranch, InsnLayout.immField]
  simp only [hnext, h.immValue htype (Or.inl hbranch), h.immOffset, h.immSize]

/-- **What Zydis leads to.** It differs for a branch with an immediate that is no displacement, for
which a field is reported all the same. -/
theorem ZyReports.relImm_iff (h : ZyReports m L zi.insn) (hnext : zi.nextAddress = L.next) :
    zi.relImm = L.relImm m ↔
      (zi.insn.branchType ≠ .none → L.imms ≠ [] → L.relativeBranch = true) := by
  by_cases hbranch : L.relativeBranch = true
  · exact iff_of_true (h.relImm_of_branch hnext hbranch) fun _ _ => hbranch
  rw [InsnLayout.relImm, if_neg hbranch, ZyFunchookInsn.relImm]
  split
  · rename_i hcond
    have himms := h.imm0_offset.mp hcond.1
    refine iff_of_false (fun heq => hcond.1 ?_) fun hall => hbranch (hall hcond.2 himms)
    exact congrArg RipRelative.offset heq
  · rename_i hcond
    refine iff_of_true rfl fun htype himms => absurd ⟨h.imm0_offset.mpr himms, htype⟩ hcond

/-- An instruction is reported as the trampoline needs it. -/
theorem ZyReports.insnReported (h : ZyReports m L zi.insn) (hnext : zi.nextAddress = L.next) :
    InsnReported m zi.toInsn := by
  have haddr : zi.toInsn.address = L.address := by
    show zi.nextAddress - BitVec.ofNat w zi.insn.length = L.address
    rw [hnext, h.length, InsnLayout.next, BitVec.add_sub_cancel]
  have hsize : zi.toInsn.size = L.size := h.length
  have hdisp : zi.toInsn.relDisp = L.relDisp m := h.relDisp hnext
  refine ⟨hsize ▸ InsnLayout.size_pos, hsize ▸ L.size_le, ?_, fun hne => ?_, fun hne => ?_⟩
  · rw [hdisp]
    by_cases hrip : L.ripRelative = true
    · refine Or.inr ?_
      show zi.relImm.size = 0
      rw [ZyFunchookInsn.relImm, if_neg]
      · rfl
      · rintro ⟨hoff, htype⟩
        exact h.imm0_offset.mp hoff (h.one_field htype hrip)
    · rw [InsnLayout.relDisp, if_neg hrip]
      exact Or.inl rfl
  · rw [hdisp] at hne ⊢
    exact InsnLayout.relDisp_reported haddr hsize hne
  · have hne' : zi.relImm.size ≠ 0 := hne
    show FieldReported m zi.toInsn zi.relImm
    rw [ZyFunchookInsn.relImm] at hne' ⊢
    split at hne'
    · rename_i hcond
      have himms := h.imm0_offset.mp hcond.1
      obtain ⟨hpos, hinside⟩ := InsnLayout.imm_inside himms
      rw [if_pos hcond]
      refine ⟨by rw [h.immOffset]; exact hpos, ?_, fun h32 => ?_⟩
      · rw [hsize, h.immOffset, h.immSize, Nat.mul_div_cancel _ (by decide)]
        exact hinside
      · have hfour : L.immSize = 4 := by
          simp only [h.immSize] at h32
          omega
        have htarget := (InsnLayout.immField_reported (m := m) haddr hsize himms).target
          (by rw [InsnLayout.immField, hfour])
        simp only [hnext, h.immValue hcond.2 (Or.inr hfour), h.immOffset]
        exact htarget
    · exact absurd rfl hne'

end Reports

/-! ## The run through the window -/

/-- The state before the instruction at `a`, with `n` bytes of the window left. -/
structure ZyDisasm.At (d : ZyDisasm w) (a : Addr w) (n : ℕ) : Prop where
  nextAddress : d.nextAddress = a
  code : d.code = a
  codeEnd : d.codeEnd = a + BitVec.ofNat w n

/-- An instruction that Zydis has decoded from its bytes: it is reported as the trampoline needs it,
with the size and the displacement field of its encoding, and with the branch field of its encoding
unless it is a branch whose immediate is no displacement. -/
structure DecodedInsn (decoder : ZyDecoder) (m : Mem w) (L : InsnLayout w) (insn : Insn w) : Prop
    where
  address : insn.address = L.address
  size : insn.size = L.size
  relDisp : insn.relDisp = L.relDisp m
  relImm : ∃ n zy, decoder (readBytes m insn.address n) = some zy ∧
    (insn.relImm = L.relImm m ↔
      (zy.branchType ≠ .none → L.imms ≠ [] → L.relativeBranch = true))
  reported : InsnReported m insn

/-- What is decoded from the `n` bytes at `a`: instructions that follow each other, all with their
encodings, up to where Zydis fails. -/
structure DecodedWindow (decoder : ZyDecoder) (m : Mem w) (layout : Addr w → InsnLayout w)
    (a : Addr w) (n : ℕ) (insns : List (Insn w)) : Prop where
  contiguous : Contiguous a insns
  insn : ∀ insn ∈ insns, DecodedInsn decoder m (layout insn.address) insn
  inside : totalSize insns ≤ n
  stops : decoder (readBytes m (a + BitVec.ofNat w (totalSize insns)) (n - totalSize insns)) = none

section Run

variable {decoder : ZyDecoder} {m : Mem w} {layout : Addr w → InsnLayout w} {a : Addr w} {n : ℕ}

theorem decodedWindow_nil (h : decoder (readBytes m a n) = none) :
    DecodedWindow decoder m layout a n [] where
  contiguous := trivial
  insn := fun _ hmem => absurd hmem List.not_mem_nil
  inside := Nat.zero_le n
  stops := by
    have hzero : a + BitVec.ofNat w 0 = a := BitVec.add_zero a
    show decoder (readBytes m (a + BitVec.ofNat w 0) n) = none
    rw [hzero]
    exact h

theorem DecodedWindow.cons {insn : Insn w} {insns : List (Insn w)} (haddr : insn.address = a)
    (hdecoded : DecodedInsn decoder m (layout insn.address) insn) (hle : insn.size ≤ n)
    (h : DecodedWindow decoder m layout (a + BitVec.ofNat w insn.size) (n - insn.size) insns) :
    DecodedWindow decoder m layout a n (insn :: insns) where
  contiguous := ⟨haddr, h.contiguous⟩
  insn := fun i hi => by
    rcases List.mem_cons.mp hi with rfl | hi
    · exact hdecoded
    · exact h.insn i hi
  inside := by
    have := h.inside
    rw [totalSize_cons]
    omega
  stops := by
    have hstops := h.stops
    rwa [BitVec.add_assoc, ← BitVec.ofNat_add, Nat.sub_sub, ← totalSize_cons] at hstops

/-- **One instruction.** It is decoded at `a`, where the next instruction is expected. -/
theorem ZyReports.decoded {zi : ZyFunchookInsn w} (h : ZyReports m (layout a) zi.insn)
    (hdecode : decoder (readBytes m a n) = some zi.insn) (haddr : (layout a).address = a)
    (hnext : zi.nextAddress = (layout a).next) :
    zi.toInsn.address = a ∧ DecodedInsn decoder m (layout zi.toInsn.address) zi.toInsn := by
  have hat : zi.toInsn.address = a := by
    show zi.nextAddress - BitVec.ofNat w zi.insn.length = a
    rw [hnext, h.length, InsnLayout.next, BitVec.add_sub_cancel, haddr]
  refine ⟨hat, ?_⟩
  rw [hat]
  constructor
  case address => exact hat.trans haddr.symm
  case size => exact h.length
  case relDisp => exact h.relDisp hnext
  case relImm =>
    refine ⟨n, zi.insn, ?_, h.relImm_iff hnext⟩
    rw [hat]
    exact hdecode
  case reported => exact h.insnReported hnext

/-- **One call.** The code pointer and the address of the next instruction move on together. -/
theorem ZyDisasm.At.next {d : ZyDisasm w} (hat : d.At a n) (hn : n < 2 ^ w)
    (hdecodes : ZyDecodes decoder m layout) :
    (decoder (readBytes m a n) = none ∧ d.next decoder m = none) ∨
      ∃ zi d', d.next decoder m = some (zi, d') ∧ 1 ≤ zi.insn.length ∧ zi.insn.length ≤ n ∧
        (zi.toInsn.address = a ∧ DecodedInsn decoder m (layout zi.toInsn.address) zi.toInsn) ∧
          d'.At (a + BitVec.ofNat w zi.insn.length) (n - zi.insn.length) := by
  have hsize : (d.codeEnd - d.code).toNat = n := by
    rw [hat.codeEnd, hat.code, add_sub_toNat a hn]
  unfold ZyDisasm.next
  dsimp only
  rw [hsize, hat.code]
  cases hdecode : decoder (readBytes m a n) with
  | none => exact Or.inl ⟨rfl, rfl⟩
  | some zy =>
    obtain ⟨hlen, haddr, hreports⟩ := hdecodes a n zy hdecode
    have hnext : d.nextAddress + BitVec.ofNat w zy.length = (layout a).next := by
      rw [hat.nextAddress, hreports.length, InsnLayout.next, haddr]
    refine Or.inr ⟨⟨zy, d.nextAddress + BitVec.ofNat w zy.length⟩, ⟨_, _, d.codeEnd⟩, rfl,
      hreports.length ▸ InsnLayout.size_pos, hlen, ?_, ?_, rfl, ?_⟩
    · exact ZyReports.decoded hreports hdecode haddr hnext
    · rw [← hat.nextAddress]
    · show d.codeEnd = a + BitVec.ofNat w zy.length + BitVec.ofNat w (n - zy.length)
      rw [hat.codeEnd, BitVec.add_assoc, ← BitVec.ofNat_add, Nat.add_sub_cancel' hlen]

/-- **The loop.** As many calls as there are bytes in the window reach its end. -/
theorem ZyDisasm.At.decoded {d : ZyDisasm w} {fuel : ℕ} (hat : d.At a n) (hn : n < 2 ^ w)
    (hfuel : n ≤ fuel) (hdecodes : ZyDecodes decoder m layout) :
    DecodedWindow decoder m layout a n ((d.insns decoder m fuel).map ZyFunchookInsn.toInsn) := by
  induction fuel generalizing d a n with
  | zero =>
    refine decodedWindow_nil (Option.eq_none_iff_forall_not_mem.mpr fun zy hzy => ?_)
    obtain ⟨hlen, -, hreports⟩ := hdecodes a n zy hzy
    have hpos := (layout a).size_pos
    rw [hreports.length] at hlen
    omega
  | succ fuel ih =>
    rw [ZyDisasm.insns]
    rcases hat.next hn hdecodes with ⟨hfail, hnone⟩ | ⟨zi, d', hsome, hpos, hle,
      ⟨haddr, hdecoded⟩, hat'⟩
    · rw [hnone]
      exact decodedWindow_nil hfail
    · rw [hsome]
      exact (ih hat' (by omega) (by omega)).cons haddr hdecoded hle

end Run

/-- **Decoding through Zydis.** The instructions follow each other from the function on, each of
them with the fields of its encoding, until Zydis fails or the window ends. -/
theorem zydis_decodes_window {cpu : Cpu} {decoder : ZyDecoder} {m : Mem cpu.bits}
    {layout : Addr cpu.bits → InsnLayout cpu.bits} (version : BitVec 64) (func : Addr cpu.bits)
    (hdecodes : ZyDecodes decoder m layout) :
    ∃ insns, zyDecode version version decoder m func = .ok insns ∧
      DecodedWindow decoder m layout func maxInsnCheckSize insns := by
  have hn : maxInsnCheckSize < 2 ^ cpu.bits := by cases cpu <;> decide
  refine ⟨_, by rw [zyDecode, ZyDisasm.init, if_neg (not_not.mpr rfl)]; rfl, ?_⟩
  exact ZyDisasm.At.decoded ⟨rfl, rfl, rfl⟩ hn (Nat.le_refl _) hdecodes

def nopLayout (a : Addr w) : InsnLayout w where
  address := a
  head := 1
  dispSize := 0
  imms := []
  tail := 0
  ripRelative := false
  relativeBranch := false
  head_pos := Nat.le_refl 1
  imms_pos := no_imms
  size_le := by decide
  disp_of_rip := fun h => by cases h
  imm_of_branch := fun h => by cases h

def jumpLayout (a : Addr w) : InsnLayout w where
  address := a
  head := 1
  dispSize := 0
  imms := [4]
  tail := 0
  ripRelative := false
  relativeBranch := true
  head_pos := Nat.le_refl 1
  imms_pos := fun n h => by
    rw [List.mem_singleton.mp h]
    decide
  size_le := by decide
  disp_of_rip := fun h => by cases h
  imm_of_branch := fun _ => ⟨rfl, rfl, 4, rfl, Or.inr (Or.inr rfl)⟩

def nopZydis : ZyInsn := ⟨1, .none, ⟨0, 0, 0⟩, ⟨0, 0, 0⟩, []⟩

def jumpZydis (value : BitVec 32) : ZyInsn :=
  ⟨5, .near, ⟨1, 32, value.signExtend 64⟩, ⟨0, 0, 0⟩, []⟩

theorem nopZydis_reports (m : Mem 64) (a : Addr 64) : ZyReports m (nopLayout a) nopZydis where
  length := rfl
  immOffset := rfl
  immSize := rfl
  immValue := fun htype => absurd rfl htype
  branch := fun h => by cases h
  one_field := fun htype => absurd rfl htype
  dispOffset := rfl
  dispSize := rfl
  dispValue := show (0 : BitVec 64).setWidth 64 = (0#0).signExtend 64 by decide
  rip := by simp [nopZydis, nopLayout]

theorem jumpZydis_reports (m : Mem 64) (a : Addr 64) :
    ZyReports m (jumpLayout a) (jumpZydis (readWord 4 m (a + BitVec.ofNat 64 1))) where
  length := rfl
  immOffset := rfl
  immSize := rfl
  immValue := fun _ _ => BitVec.setWidth_eq _
  branch := fun _ h => by cases h
  one_field := fun _ h => by cases h
  dispOffset := rfl
  dispSize := rfl
  dispValue := show (0 : BitVec 64).setWidth 64 = (0#0).signExtend 64 by decide
  rip := by simp [jumpZydis, jumpLayout]

/-- A decoder that knows `nop` and the jump with a displacement of 32 bits. -/
def sampleZydis : ZyDecoder := fun bytes =>
  if bytes.head? = some 0x90 then some nopZydis
  else if bytes.head? = some 0xe9 ∧ 5 ≤ bytes.length then some (jumpZydis (bufWord 4 bytes 1))
  else none

/-- What stands at an address of such code. -/
def sampleLayout (m : Mem 64) (a : Addr 64) : InsnLayout 64 :=
  if m a = 0x90 then nopLayout a else jumpLayout a

theorem head?_readBytes (m : Mem 64) (a : Addr 64) {n : ℕ} (hn : 0 < n) :
    (readBytes m a n).head? = some (m a) := by
  have hlen : 0 < (readBytes m a n).length := by rwa [readBytes_length]
  rw [List.head?_eq_getElem?, List.getElem?_eq_getElem hlen, getElem_readBytes]
  exact congrArg (fun a => some (m a)) (BitVec.add_zero a)

theorem sampleZydis_decodes (m : Mem 64) : ZyDecodes sampleZydis m (sampleLayout m) := by
  intro a n zy h
  have hn : 0 < n := by
    refine Nat.pos_of_ne_zero fun hzero => ?_
    subst hzero
    cases h
  unfold sampleZydis at h
  simp only [readBytes_length, head?_readBytes m a hn, Option.some.injEq] at h
  unfold sampleLayout
  split at h
  · rename_i hnop
    cases h
    rw [if_pos hnop]
    exact ⟨hn, rfl, nopZydis_reports m a⟩
  · rename_i hnop
    split at h
    · rename_i hjump
      cases h
      have hword : readWord 4 m (a + BitVec.ofNat 64 1) = bufWord 4 (readBytes m a n) 1 :=
        readWord_eq_bufWord (by omega)
      rw [← hword, if_neg hnop]
      exact ⟨hjump.2, rfl, jumpZydis_reports m a⟩
    · cases h

theorem zydis_decodes_window_sample :
    ∃ insns, zyDecode 0x400010000 0x400010000 sampleZydis sampleJump 0x401200 = .ok insns ∧
      DecodedWindow sampleZydis sampleJump (sampleLayout sampleJump) 0x401200 maxInsnCheckSize
        insns :=
  @zydis_decodes_window .x86_64 sampleZydis sampleJump (sampleLayout sampleJump) 0x400010000
    0x401200 (sampleZydis_decodes sampleJump)

end Funchook.X86
