import Funchook.DisasmCapstone
import Funchook.DisasmZydis
import Funchook.DisasmDistorm

/-!
# The three disassemblers agree (x86 and x86-64)

`funchook_disasm_x86_rip_relative` is written three times. What each of them leads to is compared
with the layout of the instruction. They differ for a relative branch of 16 bits, for a branch with
an immediate that is no displacement, and for an opcode whose last byte diStorm's estimate leaves
out. `handle_rip_relative` compares the bytes at a field with its value, so a wrong estimate is
refused unless the bytes repeat.
-/

namespace Funchook.X86

open ByteMemory

variable {w : ℕ}

/-! ## Capstone -/

/-- The documented details of an instruction decoded by Capstone. -/
structure CsReports (m : Mem w) (L : InsnLayout w) (insn : CsInsn w) : Prop where
  address : insn.address = L.address
  size : insn.size = L.size
  bytes : ∀ i < insn.size, insn.bytes[i]? = some (m (insn.address + BitVec.ofNat w i))
  immOffset : insn.encoding.immOffset = L.immOffset
  immSize : insn.encoding.immSize = L.immSize
  dispOffset : insn.encoding.dispOffset = L.dispOffset
  dispSize : insn.encoding.dispSize = L.dispSize
  dispValue : L.ripRelative = true → insn.disp.setWidth w = L.disp m
  branch : insn.IsBranch ↔ L.relativeBranch = true
  rip : CsOp.mem .rip ∈ insn.operands ↔ L.ripRelative = true

section Capstone

variable {m : Mem w} {L : InsnLayout w} {insn : CsInsn w}

theorem CsReports.next (h : CsReports m L insn) : insn.next = L.next := by
  rw [CsInsn.next, InsnLayout.next, h.address, h.size]

theorem CsReports.relDisp (h : CsReports m L insn) : insn.relDisp = L.relDisp m := by
  rw [CsInsn.relDisp, InsnLayout.relDisp]
  by_cases hrip : L.ripRelative = true
  · have hhead := L.head_pos
    have hoff := (InsnLayout.rip_disp hrip).1
    rw [if_pos ⟨by rw [h.dispOffset]; omega, h.rip.mpr hrip⟩, if_pos hrip]
    simp only [h.next, h.dispValue hrip, h.dispOffset, h.dispSize]
  · rw [if_neg fun hcond => hrip (h.rip.mp hcond.2), if_neg hrip]
    rfl

/-- A word among the reported bytes. -/
theorem CsReports.word (h : CsReports m L insn) {n off : ℕ} (hin : off + n ≤ L.size) :
    (bufWord n insn.bytes off).signExtend w =
      signedWord n m (L.address + BitVec.ofNat w off) := by
  have hword : bufWord n insn.bytes off = readWord n m (L.address + BitVec.ofNat w off) := by
    refine leWord_congr fun i hi => ?_
    rw [h.bytes (off + i) (by rw [h.size]; omega), h.address, BitVec.add_assoc,
      ← BitVec.ofNat_add]
    rfl
  rw [hword, signedWord]

/-- The displacement of a branch is read when it has four bytes or one. -/
theorem CsReports.branchImm (h : CsReports m L insn) (hbranch : L.relativeBranch = true) :
    insn.branchImm = if L.immSize = 2 then 0 else L.imm m := by
  obtain ⟨hdisp, htail, n, hn, hcases⟩ := L.imm_of_branch hbranch
  have hsize : L.immSize = n := by rw [InsnLayout.immSize, hn]; rfl
  have hinside := (InsnLayout.imm_inside (InsnLayout.branch_imms hbranch)).2
  rw [CsInsn.branchImm, h.immSize, h.immOffset, InsnLayout.imm, hsize]
  rw [hsize] at hinside
  rcases hcases with rfl | rfl | rfl
  · exact h.word hinside
  · rfl
  · exact h.word hinside

/-- **What Capstone leads to.** It differs for a relative branch of 16 bits. -/
theorem CsReports.relImm_iff (h : CsReports m L insn) :
    insn.relImm = L.relImm m ↔ (L.relativeBranch = true → L.immSize = 2 → L.imm m = 0) := by
  rw [CsInsn.relImm, InsnLayout.relImm]
  by_cases hbranch : L.relativeBranch = true
  · have hoff := (InsnLayout.imm_inside (InsnLayout.branch_imms hbranch)).1
    rw [if_pos ⟨by rw [h.immOffset]; omega, h.branch.mpr hbranch⟩, if_pos hbranch,
      InsnLayout.immField, h.next, h.branchImm hbranch, h.immOffset, h.immSize]
    split
    · rename_i htwo
      constructor
      · intro heq _ _
        exact (congrArg RipRelative.raddr heq).symm
      · intro hzero
        rw [hzero hbranch htwo]
    · rename_i htwo
      exact iff_of_true rfl fun _ h2 => absurd h2 htwo
  · rw [if_neg fun hcond => hbranch (h.branch.mp hcond.2), if_neg hbranch]
    exact iff_of_true rfl fun htrue => absurd htrue hbranch

end Capstone

/-! ## The three together -/

/-- **The three disassemblers** lead to the same fields, those of the encoding, apart from the cases
named here. Each of them has its own account of the encoding; `L` is that of diStorm. -/
theorem disassemblers_agree_iff {m : Mem w} {L Lcs Lzy : InsnLayout w} {cs : CsInsn w}
    {zi : ZyFunchookInsn w} {di : DiInsn w} (hcs : CsReports m Lcs cs) (hLcs : Lcs.SameEncoding L)
    (hzy : ZyReports m Lzy zi.insn) (hLzy : Lzy.SameEncoding L) (hnext : zi.nextAddress = L.next)
    (hdi : DiReports m L di) :
    (cs.relDisp = L.relDisp m ∧ zi.relDisp = L.relDisp m ∧
      (di.relDisp = L.relDisp m ↔
        (L.ripRelative = true → L.tail = if di.opcode.listed then 1 else 0))) ∧
    (cs.relImm = L.relImm m ↔ (L.relativeBranch = true → L.immSize = 2 → L.imm m = 0)) ∧
    (zi.relImm = L.relImm m ↔
      (zi.insn.branchType ≠ .none → Lzy.imms ≠ [] → L.relativeBranch = true)) ∧
    di.relImm = L.relImm m := by
  have hnext' : zi.nextAddress = Lzy.next := hnext.trans hLzy.next.symm
  refine ⟨⟨?_, ?_, hdi.relDisp_iff⟩, ?_, ?_, hdi.relImm⟩
  · rw [hcs.relDisp, hLcs.relDisp]
  · rw [hzy.relDisp hnext', hLzy.relDisp]
  · rw [← hLcs.relImm, hcs.relImm_iff, hLcs.relativeBranch]
    refine forall_congr' fun hbranch => ?_
    rw [hLcs.immSize hbranch, hLcs.imm hbranch]
  · rw [← hLzy.relImm, hzy.relImm_iff hnext', hLzy.relativeBranch]

/-- `cmpltps xmm0, [rip + 0x10]` -/
def sampleCmp : Mem 64 :=
  write (sampleWorld : World 64).bytes 0x401200 [0x0f, 0xc2, 0x05, 0x10, 0x00, 0x00, 0x00, 0x01]

/-- For diStorm the predicate belongs to the opcode. -/
def cmpLayout : InsnLayout 64 where
  address := 0x401200
  head := 3
  dispSize := 4
  imms := []
  tail := 1
  ripRelative := true
  relativeBranch := false
  head_pos := by decide
  imms_pos := no_imms
  size_le := by decide
  disp_of_rip := fun _ => rfl
  imm_of_branch := fun h => by cases h

/-- For Capstone and Zydis it is an immediate. -/
def cmpImmLayout : InsnLayout 64 :=
  { cmpLayout with
    imms := [1]
    tail := 0
    imms_pos := by decide
    size_le := by decide
    imm_of_branch := fun h => by cases h }

theorem cmpImmLayout_same : cmpImmLayout.SameEncoding cmpLayout := by
  constructor <;> rfl

def cmpCapstone : CsInsn 64 :=
  ⟨0x401200, 8, [0x0f, 0xc2, 0x05, 0x10, 0x00, 0x00, 0x00, 0x01], [], ⟨7, 1, 3, 4⟩, 0x10,
    [.reg, .mem .rip]⟩

def cmpZydis : ZyFunchookInsn 64 :=
  ⟨⟨8, .none, ⟨7, 8, 1⟩, ⟨3, 32, 0x10⟩, [⟨false, .other⟩, ⟨true, .rip⟩, ⟨false, .other⟩]⟩,
    0x401208⟩

def cmpDistorm : DiInsn 64 :=
  ⟨0x401200, 8, .cmp .lt .ps,
    [⟨.other, .other, 128⟩, ⟨.smem, .rip, 128⟩, ⟨.none, .other, 0⟩], 0, 0x10, 32⟩

theorem cmpCapstone_reports : CsReports sampleCmp cmpImmLayout cmpCapstone where
  address := rfl
  size := rfl
  bytes := by decide +kernel
  immOffset := rfl
  immSize := rfl
  dispOffset := rfl
  dispSize := rfl
  dispValue := fun _ => by decide +kernel
  branch := by decide
  rip := by decide

theorem cmpZydis_reports : ZyReports sampleCmp cmpImmLayout cmpZydis.insn where
  length := rfl
  immOffset := rfl
  immSize := rfl
  immValue := fun htype => absurd rfl htype
  branch := fun h => by cases h
  one_field := fun htype => absurd rfl htype
  dispOffset := rfl
  dispSize := rfl
  dispValue := by decide +kernel
  rip := by decide

theorem cmpDistorm_reports : DiReports sampleCmp cmpLayout cmpDistorm where
  addr := rfl
  size := rfl
  dispSize := rfl
  dispValue := fun _ => by decide +kernel
  immValue := fun h => by cases h
  operands := ⟨[⟨.smem, .rip, 128⟩], [], by decide, (fun h => by cases h),
    fun _ => ⟨_, rfl, Or.inl rfl, by decide⟩, rfl⟩
  branch := fun h => by cases h

theorem disassemblers_agree_iff_sample :
    (cmpCapstone.relDisp = cmpLayout.relDisp sampleCmp ∧
      cmpZydis.relDisp = cmpLayout.relDisp sampleCmp ∧
        (cmpDistorm.relDisp = cmpLayout.relDisp sampleCmp ↔
          (cmpLayout.ripRelative = true →
            cmpLayout.tail = if cmpDistorm.opcode.listed then 1 else 0))) ∧
    (cmpCapstone.relImm = cmpLayout.relImm sampleCmp ↔
      (cmpLayout.relativeBranch = true → cmpLayout.immSize = 2 → cmpLayout.imm sampleCmp = 0)) ∧
    (cmpZydis.relImm = cmpLayout.relImm sampleCmp ↔
      (cmpZydis.insn.branchType ≠ .none → cmpImmLayout.imms ≠ [] →
        cmpLayout.relativeBranch = true)) ∧
    cmpDistorm.relImm = cmpLayout.relImm sampleCmp :=
  disassemblers_agree_iff cmpCapstone_reports cmpImmLayout_same cmpZydis_reports cmpImmLayout_same
    (by decide +kernel) cmpDistorm_reports

/-! ## A wrong estimate -/

/-- The comparisons that the last switch lists: all but two that are always true. -/
theorem vcmp_listed_iff (p : VcmpPredicate) (t : CmpType) :
    (DiOpcode.vcmp p t).listed = true ↔ ¬ (p = .trueUs ∧ (t = .sd ∨ t = .ss)) := by
  cases p <;> cases t <;> simp [DiOpcode.listed]

theorem setWidth_signExtend_word (hw : 32 ≤ w) (v : BitVec 32) :
    (v.signExtend w).setWidth 32 = v := by
  ext i hi
  rw [BitVec.getElem_setWidth, BitVec.getLsbD_signExtend, if_pos hi, BitVec.getLsbD_eq_getElem hi]
  rw [decide_eq_true (Nat.lt_of_lt_of_le hi hw), Bool.true_and]

/-- Two words are the same when their bytes are. -/
theorem leWord_inj {n : ℕ} {f g : ℕ → Byte} : leWord n f = leWord n g ↔ ∀ i < n, f i = g i := by
  refine ⟨fun h i hi => ?_, leWord_congr⟩
  have hbytes := congrArg (leBytes n) h
  rw [leBytes_leWord, leBytes_leWord] at hbytes
  exact List.map_inj_left.mp hbytes i (List.mem_range.mpr hi)

/-- A sequence that equals itself moved by one is constant. -/
theorem shifted_iff {α : Type} {f : ℕ → α} {n : ℕ} :
    (∀ i < n, f (i + 1) = f i) ↔ ∀ i < n, f i = f n := by
  constructor
  · intro h
    induction n with
    | zero => exact fun i hi => absurd hi (Nat.not_lt_zero i)
    | succ n ih =>
      have hlast := h n (Nat.lt_succ_self n)
      intro i hi
      rcases Nat.lt_or_eq_of_le (Nat.le_of_lt_succ hi) with hlt | rfl
      · rw [hlast]
        exact ih (fun j hj => h j (Nat.lt_succ_of_lt hj)) i hlt
      · exact hlast.symm
  · intro h i hi
    rcases Nat.lt_or_eq_of_le (Nat.succ_le_of_lt hi) with hlt | hlast
    · rw [h i hi]
      exact h (i + 1) hlt
    · rw [h i hi, ← hlast]

section Estimate

variable {m : Mem w} {L : InsnLayout w} {di : DiInsn w} {ctx : MakeTrampolineContext w}

/-- **The check.** The estimated field is accepted when the bytes there are those of the
displacement. -/
theorem estimate_accepted_iff (hw : 32 ≤ w) (hdi : DiReports m L di) (hrip : L.ripRelative = true)
    (hcopied : ∀ i < L.size,
      ctx.trampoline[ctx.dst + i]? = some (m (L.address + BitVec.ofNat w i))) :
    (∃ ctx', handleRipRelative ctx di.relDisp di.size = .ok ctx') ↔
      ∀ i < 4, m (L.address + BitVec.ofNat w (di.relDisp.offset + i)) =
        m (L.address + BitVec.ofNat w (L.head + i)) := by
  have hfour := L.disp_of_rip hrip
  have hsize := (InsnLayout.rip_disp hrip).2
  have hcounted : (if di.opcode.listed then 1 else 0) ≤ 1 := by split <;> decide
  have hrel := hdi.relDisp_eq hrip
  have hinside : di.relDisp.offset + 4 ≤ L.size := by
    rw [hrel]
    dsimp only
    omega
  have h32 : di.relDisp.size = 32 := by rw [hrel, InsnLayout.relDisp, if_pos hrip, hfour]
  have hvalue : di.relDisp.raddr.setWidth 32 =
      (readWord 4 m (L.address + BitVec.ofNat w L.head) : BitVec 32) := by
    rw [hrel, InsnLayout.relDisp, if_pos hrip, InsnLayout.disp, hfour]
    exact setWidth_signExtend_word hw _
  have hword : bufWord 4 ctx.trampoline (ctx.dst + di.relDisp.offset) =
      readWord 4 m (L.address + BitVec.ofNat w di.relDisp.offset) := by
    refine leWord_congr fun i hi => ?_
    rw [Nat.add_assoc, hcopied _ (by omega), Option.getD_some, BitVec.add_assoc,
      ← BitVec.ofNat_add]
  have hsame : bufWord 4 ctx.trampoline (ctx.dst + di.relDisp.offset) =
      di.relDisp.raddr.setWidth 32 ↔
        ∀ i < 4, m (L.address + BitVec.ofNat w (di.relDisp.offset + i)) =
          m (L.address + BitVec.ofNat w (L.head + i)) := by
    rw [hword, hvalue]
    simpa only [readWord, BitVec.add_assoc, ← BitVec.ofNat_add] using leWord_inj
  rw [← hsame, handleRipRelative, if_pos h32]
  dsimp only
  constructor
  · rintro ⟨ctx', hok⟩
    split at hok
    · cases hok
    · rename_i heq
      exact not_not.mp heq
  · intro heq
    exact ⟨_, if_neg (not_not.mpr heq)⟩

/-- **Comparisons of AVX** with a memory operand based on the instruction pointer. The predicate is
a byte that is no operand. For the two comparisons that are not listed, the field is estimated one
byte too far, and it is accepted only when the displacement consists of four copies of the byte
behind it. -/
theorem vcmp_accepted_iff (hw : 32 ≤ w) (hdi : DiReports m L di) (hrip : L.ripRelative = true)
    {p : VcmpPredicate} {t : CmpType} (hopcode : di.opcode = .vcmp p t) (htail : L.tail = 1)
    (hcopied : ∀ i < L.size,
      ctx.trampoline[ctx.dst + i]? = some (m (L.address + BitVec.ofNat w i))) :
    (di.relDisp = L.relDisp m ↔ ¬ (p = .trueUs ∧ (t = .sd ∨ t = .ss))) ∧
      ((∃ ctx', handleRipRelative ctx di.relDisp di.size = .ok ctx') ↔
        ¬ (p = .trueUs ∧ (t = .sd ∨ t = .ss)) ∨
          ∀ i < 4, m (L.address + BitVec.ofNat w (L.head + i)) =
            m (L.address + BitVec.ofNat w (L.head + 4))) := by
  have hlisted := vcmp_listed_iff p t
  rw [← hlisted, estimate_accepted_iff hw hdi hrip hcopied, hdi.relDisp_iff, hopcode, htail]
  have hoffset : di.relDisp.offset = L.head + 1 - if (DiOpcode.vcmp p t).listed then 1 else 0 := by
    rw [hdi.relDisp_eq hrip, hopcode, htail]
  cases hcase : (DiOpcode.vcmp p t).listed with
  | true =>
    rw [hcase] at hoffset
    refine ⟨iff_of_true (fun _ => rfl) rfl, iff_of_true (fun i hi => ?_) (Or.inl rfl)⟩
    rw [hoffset]
    rfl
  | false =>
    rw [hcase] at hoffset
    refine ⟨iff_of_false (fun h => absurd (h hrip) (by decide)) (by decide), ?_⟩
    have hshift := @shifted_iff _ (fun i => m (L.address + BitVec.ofNat w (L.head + i))) 4
    rw [hoffset]
    simp only [Bool.false_eq_true, if_false, Nat.sub_zero, false_or, Nat.add_assoc,
      Nat.add_comm 1] at hshift ⊢
    exact hshift

end Estimate

/-- `vcmptrue_ussd xmm0, xmm0, [rip + 0x10]` -/
def sampleVcmp : Mem 64 :=
  write (sampleWorld : World 64).bytes 0x401200
    [0xc5, 0xfb, 0xc2, 0x05, 0x10, 0x00, 0x00, 0x00, 0x1f]

def vcmpLayout : InsnLayout 64 where
  address := 0x401200
  head := 4
  dispSize := 4
  imms := []
  tail := 1
  ripRelative := true
  relativeBranch := false
  head_pos := by decide
  imms_pos := no_imms
  size_le := by decide
  disp_of_rip := fun _ => rfl
  imm_of_branch := fun h => by cases h

def vcmpDistorm : DiInsn 64 :=
  ⟨0x401200, 9, .vcmp .trueUs .sd,
    [⟨.other, .other, 128⟩, ⟨.other, .other, 128⟩, ⟨.smem, .rip, 64⟩, ⟨.none, .other, 0⟩], 0, 0x10,
    32⟩

theorem vcmpDistorm_reports : DiReports sampleVcmp vcmpLayout vcmpDistorm where
  addr := rfl
  size := rfl
  dispSize := rfl
  dispValue := fun _ => by decide +kernel
  immValue := fun h => by cases h
  operands := ⟨[⟨.smem, .rip, 64⟩], [], by decide, (fun h => by cases h),
    fun _ => ⟨_, rfl, Or.inl rfl, by decide⟩, rfl⟩
  branch := fun h => by cases h

theorem vcmp_accepted_iff_sample :
    (vcmpDistorm.relDisp = vcmpLayout.relDisp sampleVcmp ↔
      ¬ (VcmpPredicate.trueUs = .trueUs ∧ (CmpType.sd = .sd ∨ CmpType.sd = .ss))) ∧
      ((∃ ctx', handleRipRelative (copyInsn sampleVcmp 0x401200 .init 9) vcmpDistorm.relDisp
          vcmpDistorm.size = .ok ctx') ↔
        ¬ (VcmpPredicate.trueUs = .trueUs ∧ (CmpType.sd = .sd ∨ CmpType.sd = .ss)) ∨
          ∀ i < 4, sampleVcmp (0x401200 + BitVec.ofNat 64 (4 + i)) =
            sampleVcmp (0x401200 + BitVec.ofNat 64 (4 + 4))) :=
  @vcmp_accepted_iff 64 sampleVcmp vcmpLayout vcmpDistorm (copyInsn sampleVcmp 0x401200 .init 9)
    (by decide) vcmpDistorm_reports rfl .trueUs .sd rfl rfl (by decide +kernel)

end Funchook.X86
