import Funchook.ArchX86

/-!
# The trampoline of x86 and x86-64 is exact

The instructions moved to the trampoline are the first ones that cover five bytes. A field of 32
bits after an opcode byte needs an instruction of at least five bytes, so only the last one moved
can have one, and the single entry `disp[1]` is enough for it. The two displacements that
`funchookFixCode` writes do not overlap, and `funchookPageAvail` has checked that both are in
range before they are cut to 32 bits.
-/

namespace Funchook.X86

open ByteMemory

variable {w : ℕ}

/-! ## What the disassembler is assumed to report -/

/-- The instructions follow each other from `a`. -/
def Contiguous : Addr w → List (Insn w) → Prop
  | _, [] => True
  | a, insn :: rest => insn.address = a ∧ Contiguous (a + BitVec.ofNat w insn.size) rest

/-- A reported PC-relative field lies behind an opcode byte and inside its instruction; for a
32-bit field the reported address is the one its value leads to. -/
structure FieldReported (m : Mem w) (insn : Insn w) (rel : RipRelative w) : Prop where
  opcode : 1 ≤ rel.offset
  inside : rel.offset + rel.size / 8 ≤ insn.size
  target : rel.size = 32 → rel.addr = insn.address + BitVec.ofNat w insn.size +
    (readWord 4 m (insn.address + BitVec.ofNat w rel.offset) : BitVec 32).signExtend w

/-- An instruction has 1 to 15 bytes and at most one PC-relative field. -/
structure InsnReported (m : Mem w) (insn : Insn w) : Prop where
  size_pos : 1 ≤ insn.size
  size_le : insn.size ≤ 15
  one_field : insn.relDisp.size = 0 ∨ insn.relImm.size = 0
  disp : insn.relDisp.size ≠ 0 → FieldReported m insn insn.relDisp
  imm : insn.relImm.size ≠ 0 → FieldReported m insn insn.relImm

/-- The instruction `insn` starts `k` bytes into the list. -/
def InsnAt (insns : List (Insn w)) (k : ℕ) (insn : Insn w) : Prop :=
  ∃ pre post, insns = pre ++ insn :: post ∧ totalSize pre = k

/-- None of the instructions to move starts one of the i386 idioms that read the PC. -/
def NoGetPcIdiom (cpu : Cpu) (m : Mem w) (func : Addr w) (insns : List (Insn w)) : Prop :=
  ∀ k insn, InsnAt insns k insn → k < 5 → ∀ ctx : MakeTrampolineContext w, ctx.src = k →
    handleX86GetPcThunk cpu m func ctx insn = none ∧
      handleX86GetPcByCallAndPop cpu m func ctx insn = none

theorem totalSize_cons (insn : Insn w) (insns : List (Insn w)) :
    totalSize (insn :: insns) = insn.size + totalSize insns := rfl

theorem insnAt_head (insn : Insn w) (rest : List (Insn w)) : InsnAt (insn :: rest) 0 insn :=
  ⟨[], rest, rfl, rfl⟩

theorem insnAt_cons {insns : List (Insn w)} {k : ℕ} {insn : Insn w} (h : InsnAt insns k insn)
    (first : Insn w) : InsnAt (first :: insns) (first.size + k) insn := by
  obtain ⟨pre, post, rfl, rfl⟩ := h
  exact ⟨first :: pre, post, rfl, rfl⟩

theorem insnAt_cons_cases {first insn : Insn w} {rest : List (Insn w)} {k : ℕ}
    (h : InsnAt (first :: rest) k insn) :
    (k = 0 ∧ insn = first) ∨ ∃ j, k = first.size + j ∧ InsnAt rest j insn := by
  obtain ⟨pre, post, heq, hk⟩ := h
  cases pre with
  | nil =>
    cases heq
    exact Or.inl ⟨hk.symm, rfl⟩
  | cons p pre =>
    cases heq
    exact Or.inr ⟨totalSize pre, hk.symm, pre, post, rfl, rfl⟩

/-- A 32-bit field makes an instruction of at least five bytes. -/
theorem FieldReported.five_le {m : Mem w} {insn : Insn w} {rel : RipRelative w}
    (h : FieldReported m insn rel) (hsize : rel.size = 32) : 5 ≤ insn.size := by
  have := h.opcode
  have := h.inside
  omega

/-! ## Copying instructions -/

/-- The trampoline holds the bytes moved so far, at the offsets they come from. -/
structure Copied (m : Mem w) (func : Addr w) (ctx : MakeTrampolineContext w) : Prop where
  dst : ctx.dst = ctx.src
  length : ctx.trampoline.length = trampolineSize
  code : ∀ i < ctx.src, ctx.trampoline[i]? = some (m (func + BitVec.ofNat w i))

theorem copied_init (m : Mem w) (func : Addr w) : Copied m func .init where
  dst := rfl
  length := List.length_replicate
  code := fun i hi => absurd hi (Nat.not_lt_zero i)

theorem copyInsn_code {m : Mem w} {func : Addr w} {ctx : MakeTrampolineContext w}
    (h : Copied m func ctx) {size : ℕ} (hsize : ctx.src + size ≤ trampolineSize) {i : ℕ}
    (hi : i < ctx.src + size) :
    (copyInsn m func ctx size).trampoline[i]? = some (m (func + BitVec.ofNat w i)) := by
  unfold copyInsn
  dsimp only
  by_cases hlt : i < ctx.src
  · rw [getElem?_overwrite_of_out (Or.inl (by rw [h.dst]; exact hlt)), h.code i hlt]
  · have hlen := h.length
    rw [h.dst, getElem?_overwrite_of_in (by omega) (by simpa using hi) (by omega),
      List.getElem?_eq_getElem (by simp; omega), getElem_readBytes, BitVec.add_assoc,
      ← BitVec.ofNat_add, show ctx.src + (i - ctx.src) = i by omega]

/-- What the fields of an instruction moved to the offset `k` leave in `disp[1]`. -/
def fieldEntry (k : ℕ) (insn : Insn w) (old : IpDisplacementEntry w) : IpDisplacementEntry w :=
  if insn.relImm.size = 32 then ⟨insn.relImm.addr, k + insn.size, k + insn.relImm.offset⟩
  else if insn.relDisp.size = 32 then
    ⟨insn.relDisp.addr, k + insn.size, k + insn.relDisp.offset⟩
  else old

theorem handleRipRelative_ok {ctx ctx' : MakeTrampolineContext w} {rel : RipRelative w}
    {size : ℕ} (h : handleRipRelative ctx rel size = .ok ctx') :
    rel.size = 0 ∧ ctx' = ctx ∨ rel.size = 32 ∧ ctx' = { ctx with ripDisp := { ctx.ripDisp with
      disp1 := ⟨rel.addr, ctx.dst + size, ctx.dst + rel.offset⟩ } } := by
  unfold handleRipRelative at h
  split at h
  · rename_i h32
    dsimp only at h
    split at h
    · cases h
    · cases h
      exact Or.inr ⟨h32, rfl⟩
  · split at h
    · cases h
    · rename_i h0
      cases h
      exact Or.inl ⟨not_not.mp h0, rfl⟩

/-- **One instruction.** It is copied to where the code before it ends, and its 32-bit field, if
it has one, is recorded. -/
theorem moveInsn_copied {m : Mem w} {func : Addr w} {ctx ctx' : MakeTrampolineContext w}
    {insn : Insn w} (hcopied : Copied m func ctx)
    (hsize : ctx.src + insn.size ≤ trampolineSize) (h : moveInsn m func ctx insn = .ok ctx') :
    Copied m func ctx' ∧ ctx'.src = ctx.src + insn.size ∧
      ctx'.ripDisp.disp1 = fieldEntry ctx.src insn ctx.ripDisp.disp1 ∧
      (insn.relDisp.size = 0 ∨ insn.relDisp.size = 32) ∧
      (insn.relImm.size = 0 ∨ insn.relImm.size = 32) := by
  obtain ⟨ctx₁, ctx₂, hdisp, himm, rfl⟩ := moveInsn_ok h
  have hcode : ∀ i < ctx.src + insn.size,
      (copyInsn m func ctx insn.size).trampoline[i]? = some (m (func + BitVec.ofNat w i)) :=
    fun i hi => copyInsn_code hcopied hsize hi
  have hlen : (copyInsn m func ctx insn.size).trampoline.length = trampolineSize := by
    simp [copyInsn, hcopied.length]
  have hdst : ctx.dst + insn.size = ctx.src + insn.size := by rw [hcopied.dst]
  rcases handleRipRelative_ok hdisp with ⟨hd, rfl⟩ | ⟨hd, rfl⟩ <;>
    rcases handleRipRelative_ok himm with ⟨hi, rfl⟩ | ⟨hi, rfl⟩ <;>
      exact ⟨⟨hdst, hlen, hcode⟩, rfl, by simp [fieldEntry, hd, hi, copyInsn, hcopied.dst],
        by simp [hd], by simp [hi]⟩

/-- The state at the end of the loop, when the last instruction moved is `insn` at `k`. -/
structure LoopDone (m : Mem w) (func : Addr w) (k : ℕ) (insn : Insn w)
    (ctx : MakeTrampolineContext w) : Prop where
  src : ctx.src = k + insn.size
  starts : k < 5
  reaches : 5 ≤ k + insn.size
  length : ctx.trampoline.length = trampolineSize
  code : ∀ i < ctx.src, ctx.trampoline[i]? = some (m (func + BitVec.ofNat w i))
  jump : ctx.trampoline[ctx.src]? = some 0xe9
  disp0 : ctx.ripDisp.disp0 = ⟨func + BitVec.ofNat w ctx.src, ctx.src + 5, ctx.src + 1⟩
  disp1 : ctx.ripDisp.disp1 = fieldEntry k insn ⟨0, 0, 0⟩
  disp_size : insn.relDisp.size = 0 ∨ insn.relDisp.size = 32
  imm_size : insn.relImm.size = 0 ∨ insn.relImm.size = 32

theorem finishTrampoline_ok {func : Addr w} {ctx ctx' : MakeTrampolineContext w}
    {rest : List (Insn w)} (h : finishTrampoline func ctx rest = .ok ctx') :
    ctx' = { ctx with
      trampoline := overwrite ctx.trampoline ctx.dst [0xe9]
      ripDisp := { ctx.ripDisp with
        disp0 := ⟨func + BitVec.ofNat w ctx.src, ctx.dst + 5, ctx.dst + 1⟩ }
      trampolineLen := ctx.dst + 5 } := by
  unfold finishTrampoline at h
  dsimp only at h
  split at h
  · cases h
  · exact (Except.ok.inj h).symm

/-- Only an instruction that reaches the fifth byte can have a 32-bit field. -/
theorem fields_zero_of_short {m : Mem w} {insn : Insn w} (hreport : InsnReported m insn)
    (hshort : insn.size < 5) (hdisp : insn.relDisp.size = 0 ∨ insn.relDisp.size = 32)
    (himm : insn.relImm.size = 0 ∨ insn.relImm.size = 32) :
    insn.relDisp.size = 0 ∧ insn.relImm.size = 0 := by
  refine ⟨hdisp.resolve_right fun h32 => ?_, himm.resolve_right fun h32 => ?_⟩
  · have := (hreport.disp (by omega)).five_le h32
    omega
  · have := (hreport.imm (by omega)).five_le h32
    omega

/-- **The loop.** It moves instructions up to the first that reaches the fifth byte; those before
it have no field. -/
theorem moveInsns_done {cpu : Cpu} {m : Mem w} {func : Addr w} {insns : List (Insn w)}
    {ctx ctx' : MakeTrampolineContext w} (hcopied : Copied m func ctx) (hsrc : ctx.src < 5)
    (hcover : 5 ≤ ctx.src + totalSize insns) (hreport : ∀ insn ∈ insns, InsnReported m insn)
    (hidiom : ∀ k insn, InsnAt insns k insn → ctx.src + k < 5 → ∀ c : MakeTrampolineContext w,
      c.src = ctx.src + k → handleX86GetPcThunk cpu m func c insn = none ∧
        handleX86GetPcByCallAndPop cpu m func c insn = none)
    (hdisp1 : ctx.ripDisp.disp1 = ⟨0, 0, 0⟩) (h : moveInsns cpu m func insns ctx = .ok ctx') :
    ∃ k insn, InsnAt insns k insn ∧ LoopDone m func (ctx.src + k) insn ctx' ∧
      ∀ j insn', InsnAt insns j insn' → j < k →
        insn'.relDisp.size = 0 ∧ insn'.relImm.size = 0 := by
  induction insns generalizing ctx with
  | nil =>
    simp only [totalSize, List.map_nil, List.sum_nil] at hcover
    omega
  | cons insn rest ih =>
    have hinsn := hreport insn List.mem_cons_self
    have hle := hinsn.size_le
    obtain ⟨hthunk, hpop⟩ := hidiom 0 insn (insnAt_head insn rest) hsrc ctx rfl
    have hroom : ctx.src + insn.size ≤ trampolineSize := by
      simp only [trampolineSize, rel2gJumpSize, maxInsnLen]
      omega
    cases moveInsns_round h with
    | thunk hthunk' _ => cases hthunk.symm.trans hthunk'
    | pop _ hpop' _ => cases hpop.symm.trans hpop'
    | @last ctx₁ _ _ hmove hge hfinish =>
      obtain ⟨hcopied₁, hsrc₁, hfield, hdisp, himm⟩ := moveInsn_copied hcopied hroom hmove
      rw [hdisp1] at hfield
      have hctx' := finishTrampoline_ok hfinish
      have hlen := hcopied₁.length
      have hdst := hcopied₁.dst
      refine ⟨0, insn, insnAt_head insn rest, ?_, fun j insn' _ hj => by omega⟩
      rw [hctx', hdst]
      refine ⟨hsrc₁, hsrc, by rw [Nat.add_zero]; omega, by simpa using hlen, fun i hi => ?_, ?_,
        rfl, hfield, hdisp, himm⟩
      · rw [getElem?_overwrite_of_out (Or.inl hi)]
        exact hcopied₁.code i hi
      · rw [getElem?_overwrite_of_in (Nat.le_refl _) (by simp)
          (by simp only [trampolineSize, rel2gJumpSize, maxInsnLen] at hlen; omega)]
        simp
    | @next ctx₁ _ _ hmove hlt hrest =>
      obtain ⟨hcopied₁, hsrc₁, hfield, hdisp, himm⟩ := moveInsn_copied hcopied hroom hmove
      rw [hdisp1] at hfield
      obtain ⟨hd, hi⟩ := fields_zero_of_short hinsn (by omega) hdisp himm
      have hzero : ctx₁.ripDisp.disp1 = ⟨0, 0, 0⟩ := by
        rw [hfield, fieldEntry, if_neg (by omega), if_neg (by omega)]
      obtain ⟨k, last, hat, hdone, hbefore⟩ := ih hcopied₁ hlt
        (by rw [totalSize_cons] at hcover; omega)
        (fun i hi => hreport i (List.mem_cons_of_mem _ hi))
        (fun k i hat hk c hc => hidiom (insn.size + k) i (insnAt_cons hat insn) (by omega) c
          (by omega)) hzero hrest
      refine ⟨insn.size + k, last, insnAt_cons hat insn, ?_, fun j insn' hat' hj => ?_⟩
      · rw [← Nat.add_assoc, ← hsrc₁]
        exact hdone
      · rcases insnAt_cons_cases hat' with ⟨-, rfl⟩ | ⟨j', rfl, hat''⟩
        · exact ⟨hd, hi⟩
        · exact hbefore j' insn' hat'' (by omega)

/-! ## Displacements in range -/

/-- The check that guards a 32-bit displacement; 32-bit addresses need none. -/
def inReach : (cpu : Cpu) → Addr cpu.bits → Addr cpu.bits → Bool
  | .i386, _, _ => true
  | .x86_64, src, dst => funchookWithin32bitRelative src dst

/-- A displacement in reach leads from `src` to `dst`. -/
theorem displacement_reaches {cpu : Cpu} {src dst : Addr cpu.bits}
    (h : inReach cpu src dst = true) : src + (displacement src dst).signExtend cpu.bits = dst := by
  cases cpu with
  | i386 =>
    exact add_displacement (w := 32) (n := 31) (by decide) ⟨BitVec.le_toInt _, BitVec.toInt_lt⟩
  | x86_64 =>
    have hrange := of_decide_eq_true h
    exact add_displacement (w := 64) (n := 31) (by decide) ⟨hrange.1, by omega⟩

/-- What `funchookPageAvail` has checked about the three displacements of an entry. -/
theorem pageAvail_reach {cpu : Cpu} {slot addr : Addr cpu.bits} {disp : IpDisplacement cpu.bits}
    (h : funchookPageAvail cpu slot addr disp = true) :
    inReach cpu (addr + 5) slot = true ∧
      inReach cpu (slot + BitVec.ofNat cpu.bits (trampolineOffset cpu) +
        BitVec.ofNat cpu.bits disp.disp0.srcAddrOffset) disp.disp0.dstAddr = true ∧
      (disp.disp1.dstAddr ≠ 0 →
        inReach cpu (slot + BitVec.ofNat cpu.bits (trampolineOffset cpu) +
          BitVec.ofNat cpu.bits disp.disp1.srcAddrOffset) disp.disp1.dstAddr = true) := by
  cases cpu with
  | i386 => exact ⟨rfl, rfl, fun _ => rfl⟩
  | x86_64 =>
    simp only [funchookPageAvail, Bool.and_eq_true, Bool.or_eq_true, beq_iff_eq] at h
    exact ⟨h.1.1, h.1.2, fun hne => h.2.resolve_left hne⟩

/-! ## Exactness -/

/-- The code of a function is reported as the library needs it. -/
structure CodeReported (cpu : Cpu) (disasm : Disasm w) (m : Mem w) (func : Addr w)
    (insns : List (Insn w)) : Prop where
  decoded : disasm m func = .ok insns
  contiguous : Contiguous func insns
  insn : ∀ insn ∈ insns, InsnReported m insn
  covers : 5 ≤ totalSize insns
  idiom : NoGetPcIdiom cpu m func insns

/-- `rel` is a 32-bit field of the instruction moved to the offset `k`. -/
def MovedField (insns : List (Insn w)) (k : ℕ) (insn : Insn w) (rel : RipRelative w) : Prop :=
  InsnAt insns k insn ∧ k < 5 ∧ (rel = insn.relDisp ∨ rel = insn.relImm) ∧ rel.size = 32

/-- Where the field at `offset` of the instruction of `size` bytes at `func + k` leads. -/
def absoluteTarget (m : Mem w) (func : Addr w) (k size offset : ℕ) : Addr w :=
  func + BitVec.ofNat w (k + size) +
    (readWord 4 m (func + BitVec.ofNat w (k + offset)) : BitVec 32).signExtend w

/-- The bytes `code`, put at `tramp`, stand for the first `n` bytes of `func`. -/
structure RelocatedExactly (m : Mem w) (func tramp : Addr w) (insns : List (Insn w))
    (code : List Byte) (n : ℕ) : Prop where
  patch : ∃ k insn, InsnAt insns k insn ∧ k < 5 ∧ 5 ≤ k + insn.size ∧ n = k + insn.size
  same : ∀ i < n, (∀ k insn rel, MovedField insns k insn rel →
    absoluteTarget m func k insn.size rel.offset ≠ 0 →
      i < k + rel.offset ∨ k + rel.offset + 4 ≤ i) →
        code[i]? = some (m (func + BitVec.ofNat w i))
  field : ∀ k insn rel, MovedField insns k insn rel →
    absoluteTarget m func k insn.size rel.offset ≠ 0 →
      tramp + BitVec.ofNat w (k + insn.size) +
        (bufWord 4 code (k + rel.offset) : BitVec 32).signExtend w =
          absoluteTarget m func k insn.size rel.offset
  jump : code[n]? = some 0xe9
  back : tramp + BitVec.ofNat w (n + 5) + (bufWord 4 code (n + 1) : BitVec 32).signExtend w =
    func + BitVec.ofNat w n

theorem insnAt_address {func : Addr w} {insns : List (Insn w)} (hc : Contiguous func insns)
    {k : ℕ} {insn : Insn w} (h : InsnAt insns k insn) :
    insn.address = func + BitVec.ofNat w k := by
  induction insns generalizing func k with
  | nil =>
    obtain ⟨pre, post, heq, -⟩ := h
    simp at heq
  | cons first rest ih =>
    rcases insnAt_cons_cases h with ⟨rfl, rfl⟩ | ⟨j, rfl, hat⟩
    · rw [hc.1]
      exact (BitVec.add_zero func).symm
    · rw [ih hc.2 hat, BitVec.ofNat_add, BitVec.add_assoc]

theorem insnAt_mem {insns : List (Insn w)} {k : ℕ} {insn : Insn w} (h : InsnAt insns k insn) :
    insn ∈ insns := by
  obtain ⟨pre, post, rfl, -⟩ := h
  simp

/-- Two instructions of one list are the same or do not overlap. -/
theorem insnAt_cases {m : Mem w} {insns : List (Insn w)}
    (hreport : ∀ insn ∈ insns, InsnReported m insn) {j k : ℕ} {insn insn' : Insn w}
    (h : InsnAt insns k insn) (h' : InsnAt insns j insn') :
    j < k ∨ (j = k ∧ insn' = insn) ∨ k + insn.size ≤ j := by
  induction insns generalizing j k with
  | nil =>
    obtain ⟨pre, post, heq, -⟩ := h
    simp at heq
  | cons first rest ih =>
    have hpos := (hreport first List.mem_cons_self).size_pos
    rcases insnAt_cons_cases h with ⟨rfl, rfl⟩ | ⟨k', rfl, hat⟩
    · rcases insnAt_cons_cases h' with ⟨rfl, rfl⟩ | ⟨j', rfl, hat'⟩
      · exact Or.inr (Or.inl ⟨rfl, rfl⟩)
      · exact Or.inr (Or.inr (by omega))
    · rcases insnAt_cons_cases h' with ⟨rfl, rfl⟩ | ⟨j', rfl, hat'⟩
      · exact Or.inl (by omega)
      · rcases ih (fun i hi => hreport i (List.mem_cons_of_mem _ hi)) hat hat' with
          hlt | ⟨rfl, rfl⟩ | hge
        · exact Or.inl (by omega)
        · exact Or.inr (Or.inl ⟨rfl, rfl⟩)
        · exact Or.inr (Or.inr (by omega))

/-- A field of a moved instruction belongs to the last one moved. -/
theorem movedField_last {m : Mem w} {func : Addr w} {insns : List (Insn w)} {k : ℕ}
    {last : Insn w} {ctx : MakeTrampolineContext w}
    (hreport : ∀ insn ∈ insns, InsnReported m insn) (hat : InsnAt insns k last)
    (hdone : LoopDone m func k last ctx)
    (hbefore : ∀ j insn', InsnAt insns j insn' → j < k →
      insn'.relDisp.size = 0 ∧ insn'.relImm.size = 0)
    {j : ℕ} {insn : Insn w} {rel : RipRelative w} (hfield : MovedField insns j insn rel) :
    j = k ∧ insn = last ∧
      ctx.ripDisp.disp1 = ⟨rel.addr, k + last.size, k + rel.offset⟩ ∧ FieldReported m last rel := by
  obtain ⟨hat', hj, hrel, hsize⟩ := hfield
  have hlast := hreport last (insnAt_mem hat)
  have hreaches := hdone.reaches
  rcases insnAt_cases hreport hat hat' with hlt | ⟨rfl, rfl⟩ | hge
  · obtain ⟨hd, hi⟩ := hbefore j insn hat' hlt
    rcases hrel with rfl | rfl <;> omega
  · refine ⟨rfl, rfl, ?_⟩
    rw [hdone.disp1, fieldEntry]
    rcases hrel with rfl | rfl
    · rw [if_neg (by have := hlast.one_field; omega), if_pos hsize]
      exact ⟨rfl, hlast.disp (by omega)⟩
    · rw [if_pos hsize]
      exact ⟨rfl, hlast.imm (by omega)⟩
  · omega

theorem funchookMakeTrampoline_done {cpu : Cpu} {disasm : Disasm w} {m : Mem w} {func : Addr w}
    {insns : List (Insn w)} {ctx : MakeTrampolineContext w}
    (hcode : CodeReported cpu disasm m func insns)
    (h : funchookMakeTrampoline cpu disasm m func = .ok ctx) :
    ∃ k last, InsnAt insns k last ∧ LoopDone m func k last ctx ∧
      ∀ j insn, InsnAt insns j insn → j < k → insn.relDisp.size = 0 ∧ insn.relImm.size = 0 := by
  unfold funchookMakeTrampoline at h
  rw [hcode.decoded] at h
  dsimp only at h
  split at h
  · cases h
  · rename_i ctx₁ hmove
    have hzero : (MakeTrampolineContext.init : MakeTrampolineContext w).src = 0 := rfl
    have hcovers := hcode.covers
    obtain ⟨k, last, hat, hdone, hbefore⟩ := moveInsns_done (copied_init m func)
      (by rw [hzero]; decide) (by omega) hcode.insn
      (fun k insn hat hk c hc => hcode.idiom k insn hat (by omega) c (by omega)) rfl hmove
    rw [hzero, Nat.zero_add] at hdone
    split at h
    · cases h
      exact ⟨k, last, hat, hdone, hbefore⟩
    · cases h

/-- The trampoline code that `funchookFixCode` leaves at `tramp`. -/
def fixedCode (tramp : Addr w) (ctx : MakeTrampolineContext w) : List Byte :=
  let code := fixDisplacement tramp ctx.ripDisp.disp0 ctx.trampoline
  if ctx.ripDisp.disp1.dstAddr ≠ 0 then fixDisplacement tramp ctx.ripDisp.disp1 code else code

theorem bufWord_fixDisplacement (tramp : Addr w) (d : IpDisplacementEntry w) {code : List Byte}
    (h : d.posOffset + 4 ≤ code.length) :
    bufWord 4 (fixDisplacement tramp d code) d.posOffset =
      displacement (tramp + BitVec.ofNat w d.srcAddrOffset) d.dstAddr :=
  bufWord_overwrite _ h

theorem getElem?_fixDisplacement (tramp : Addr w) (d : IpDisplacementEntry w) (code : List Byte)
    {i : ℕ} (h : i < d.posOffset ∨ d.posOffset + 4 ≤ i) :
    (fixDisplacement tramp d code)[i]? = code[i]? :=
  getElem?_overwrite_of_out (by simpa using h)

theorem bufWord_fixDisplacement_of_out (tramp : Addr w) (d : IpDisplacementEntry w)
    (code : List Byte) {off : ℕ} (h : off + 4 ≤ d.posOffset ∨ d.posOffset + 4 ≤ off) :
    bufWord 4 (fixDisplacement tramp d code) off = bufWord 4 code off :=
  bufWord_overwrite_of_out (by simpa using h)

section Fixed

variable {m : Mem w} {func tramp : Addr w} {insns : List (Insn w)} {k : ℕ} {last : Insn w}
  {ctx : MakeTrampolineContext w} (hdone : LoopDone m func k last ctx)

include hdone

/-- A byte up to the jump back that `disp[1]` does not cover is left as it is. -/
theorem getElem?_fixedCode {i : ℕ} (hi : i ≤ ctx.src) (hout : ctx.ripDisp.disp1.dstAddr ≠ 0 →
    i < ctx.ripDisp.disp1.posOffset ∨ ctx.ripDisp.disp1.posOffset + 4 ≤ i) :
    (fixedCode tramp ctx)[i]? = ctx.trampoline[i]? := by
  have hpos : ctx.ripDisp.disp0.posOffset = ctx.src + 1 := by rw [hdone.disp0]
  unfold fixedCode
  dsimp only
  split
  · rename_i hne
    rw [getElem?_fixDisplacement _ _ _ (hout hne), getElem?_fixDisplacement _ _ _ (by omega)]
  · rw [getElem?_fixDisplacement _ _ _ (by omega)]

/-- The field of the jump back, behind which `disp[1]` writes nothing. -/
theorem bufWord_fixedCode_back (hlen : ctx.src + 5 ≤ ctx.trampoline.length)
    (hbefore : ctx.ripDisp.disp1.dstAddr ≠ 0 → ctx.ripDisp.disp1.posOffset + 4 ≤ ctx.src) :
    bufWord 4 (fixedCode tramp ctx) (ctx.src + 1) =
      displacement (tramp + BitVec.ofNat w (ctx.src + 5)) (func + BitVec.ofNat w ctx.src) := by
  have hpos : ctx.ripDisp.disp0.posOffset = ctx.src + 1 := by rw [hdone.disp0]
  have hfirst : bufWord 4 (fixDisplacement tramp ctx.ripDisp.disp0 ctx.trampoline) _ = _ :=
    bufWord_fixDisplacement tramp ctx.ripDisp.disp0 (by omega)
  rw [hpos, hdone.disp0] at hfirst
  unfold fixedCode
  dsimp only
  split
  · rename_i hne
    have hle := hbefore hne
    rw [bufWord_fixDisplacement_of_out _ _ _ (Or.inr (by omega)), hdone.disp0]
    exact hfirst
  · rw [hdone.disp0]
    exact hfirst

variable (hreport : ∀ insn ∈ insns, InsnReported m insn) (hcontiguous : Contiguous func insns)
  (hat : InsnAt insns k last)
  (hbefore : ∀ j insn, InsnAt insns j insn → j < k → insn.relDisp.size = 0 ∧ insn.relImm.size = 0)

include hreport hcontiguous hat hbefore

/-- A field with a target is the one that `disp[1]` records, and it ends before the jump back. -/
theorem movedField_recorded {j : ℕ} {insn : Insn w} {rel : RipRelative w}
    (hmoved : MovedField insns j insn rel) :
    j = k ∧ insn = last ∧
      ctx.ripDisp.disp1 =
        ⟨absoluteTarget m func j insn.size rel.offset, k + last.size, k + rel.offset⟩ ∧
      k + rel.offset + 4 ≤ ctx.src := by
  have hsrc := hdone.src
  obtain ⟨rfl, rfl, hdisp1, hrel⟩ := movedField_last hreport hat hdone hbefore hmoved
  have hinside := hrel.inside
  rw [hmoved.2.2.2] at hinside
  refine ⟨rfl, rfl, ?_, by omega⟩
  rw [hdisp1, hrel.target hmoved.2.2.2, insnAt_address hcontiguous hat, absoluteTarget]
  simp only [BitVec.ofNat_add, BitVec.add_assoc]

/-- When `disp[1]` is used, it records a field of the last instruction. -/
theorem disp1_recorded (hne : ctx.ripDisp.disp1.dstAddr ≠ 0) :
    ctx.ripDisp.disp1.posOffset + 4 ≤ ctx.src ∧
      ∃ rel, MovedField insns k last rel ∧ ctx.ripDisp.disp1.posOffset = k + rel.offset := by
  have hentry := hdone.disp1
  rw [fieldEntry] at hentry
  have hmoved : ∃ rel, MovedField insns k last rel := by
    by_cases himm : last.relImm.size = 32
    · exact ⟨last.relImm, hat, hdone.starts, Or.inr rfl, himm⟩
    · by_cases hdisp : last.relDisp.size = 32
      · exact ⟨last.relDisp, hat, hdone.starts, Or.inl rfl, hdisp⟩
      · rw [if_neg himm, if_neg hdisp] at hentry
        exact absurd (congrArg IpDisplacementEntry.dstAddr hentry) hne
  obtain ⟨rel, hrel⟩ := hmoved
  obtain ⟨-, -, heq, hle⟩ := movedField_recorded hdone hreport hcontiguous hat hbefore hrel
  rw [heq]
  exact ⟨hle, rel, hrel, rfl⟩

/-- The fixed code is exact when its two displacements lead where they should. -/
theorem fixedCode_relocated (hlen : ctx.src + 5 ≤ ctx.trampoline.length)
    (hreach : ∀ d, d = ctx.ripDisp.disp0 ∨ (d = ctx.ripDisp.disp1 ∧ d.dstAddr ≠ 0) →
      tramp + BitVec.ofNat w d.srcAddrOffset +
        (displacement (tramp + BitVec.ofNat w d.srcAddrOffset) d.dstAddr).signExtend w =
          d.dstAddr) :
    RelocatedExactly m func tramp insns (fixedCode tramp ctx) ctx.src := by
  have hfield := fun {j insn rel} (hmoved : MovedField insns j insn rel) =>
    movedField_recorded hdone hreport hcontiguous hat hbefore hmoved
  have hdisp1 := disp1_recorded hdone hreport hcontiguous hat hbefore
  refine ⟨⟨k, last, hat, hdone.starts, hdone.reaches, hdone.src⟩, fun i hi hout => ?_,
    fun j insn rel hmoved hne => ?_, ?_, ?_⟩
  · rw [getElem?_fixedCode hdone (by omega) fun hne => ?_, hdone.code i hi]
    obtain ⟨-, rel, hrel, hpos⟩ := hdisp1 hne
    obtain ⟨-, -, heq, -⟩ := hfield hrel
    rw [heq] at hne
    rw [hpos]
    exact hout k last rel hrel hne
  · obtain ⟨rfl, rfl, heq, hle⟩ := hfield hmoved
    have hne' : ctx.ripDisp.disp1.dstAddr ≠ 0 := by rw [heq]; exact hne
    have hword : bufWord 4 (fixedCode tramp ctx) (j + rel.offset) =
        displacement (tramp + BitVec.ofNat w (j + insn.size))
          (absoluteTarget m func j insn.size rel.offset) := by
      unfold fixedCode
      dsimp only
      rw [if_pos hne', heq]
      exact bufWord_fixDisplacement tramp ⟨_, _, j + rel.offset⟩
        (by rw [fixDisplacement_length]; dsimp only; omega)
    have hreach₁ := hreach _ (Or.inr ⟨rfl, hne'⟩)
    rw [heq] at hreach₁
    rw [hword]
    exact hreach₁
  · rw [getElem?_fixedCode hdone (Nat.le_refl _) fun hne => Or.inr (hdisp1 hne).1]
    exact hdone.jump
  · have hreach₀ := hreach _ (Or.inl rfl)
    rw [hdone.disp0] at hreach₀
    rw [bufWord_fixedCode_back hdone hlen fun hne => (hdisp1 hne).1]
    exact hreach₀

end Fixed

/-- **Trampolines are exact.** When `funchookMakeTrampoline` returns a trampoline and the entry
stands where `funchookPageAvail` holds, the code that `funchookFixCode` leaves at the trampoline
is the patched part of the function, with its PC-relative field led back to the same target, and a
jump to the rest of the function. -/
theorem trampoline_relocated_exactly {cpu : Cpu} {disasm : Disasm cpu.bits} {m : Mem cpu.bits}
    {func slot : Addr cpu.bits} {insns : List (Insn cpu.bits)}
    {ctx : MakeTrampolineContext cpu.bits} {entry : FunchookEntry cpu.bits}
    (hcode : CodeReported cpu disasm m func insns)
    (hmake : funchookMakeTrampoline cpu disasm m func = .ok ctx)
    (havail : funchookPageAvail cpu slot func ctx.ripDisp = true)
    (htarget : entry.targetFunc = func) (htrampoline : entry.trampoline = ctx.trampoline)
    (hookCallerAsm : Addr cpu.bits) :
    RelocatedExactly m func (slot + BitVec.ofNat cpu.bits (trampolineOffset cpu)) insns
      (funchookFixCode cpu hookCallerAsm slot entry ctx.ripDisp).trampoline
      (funchookFixCode cpu hookCallerAsm slot entry ctx.ripDisp).patchCodeSize.toNat := by
  obtain ⟨k, last, hat, hdone, hbefore⟩ := funchookMakeTrampoline_done hcode hmake
  obtain ⟨-, hreach₀, hreach₁⟩ := pageAvail_reach havail
  have hlast := hcode.insn last (insnAt_mem hat)
  have hsrc := hdone.src
  have hk := hdone.starts
  have hle := hlast.size_le
  have hlen := hdone.length
  simp only [trampolineSize, rel2gJumpSize, maxInsnLen] at hlen
  have hn : (funchookFixCode cpu hookCallerAsm slot entry ctx.ripDisp).patchCodeSize.toNat =
      ctx.src := by
    show (displacement entry.targetFunc ctx.ripDisp.disp0.dstAddr).toNat = ctx.src
    rw [htarget]
    exact finished_patchCodeSize ⟨by have := hdone.reaches; omega, by omega, by rw [hdone.disp0]⟩
  have hfixed : (funchookFixCode cpu hookCallerAsm slot entry ctx.ripDisp).trampoline =
      fixedCode (slot + BitVec.ofNat cpu.bits (trampolineOffset cpu)) ctx := by
    rw [fixedCode, ← htrampoline]
    rfl
  rw [hn, hfixed]
  refine fixedCode_relocated hdone hcode.insn hcode.contiguous hat hbefore (by omega) ?_
  rintro d (rfl | ⟨rfl, hne⟩)
  · exact displacement_reaches hreach₀
  · exact displacement_reaches (hreach₁ hne)

/-- Two `nop` at `0x401200` and a jump to `0x402000`. -/
def sampleJump : Mem 64 :=
  write (sampleWorld : World 64).bytes 0x401200 [0x90, 0x90, 0xe9, 0xf9, 0x0d, 0x00, 0x00]

def sampleJumpInsns : List (Insn 64) :=
  [⟨1, 0x401200, 0, ⟨0, 0, 0, 0⟩, ⟨0, 0, 0, 0⟩⟩, ⟨1, 0x401201, 0, ⟨0, 0, 0, 0⟩, ⟨0, 0, 0, 0⟩⟩,
    ⟨5, 0x401202, 0x402000, ⟨0, 0, 0, 0⟩, ⟨0x402000, 0xdf9, 1, 32⟩⟩]

theorem sampleJump_reported :
    CodeReported .x86_64 sampleDisassembler.decode sampleJump 0x401200 sampleJumpInsns where
  decoded := congrArg Except.ok (by decide +kernel)
  contiguous := ⟨rfl, rfl, rfl, trivial⟩
  insn := by
    intro insn hmem
    simp only [sampleJumpInsns, List.mem_cons, List.not_mem_nil, or_false] at hmem
    rcases hmem with rfl | rfl | rfl
    · exact ⟨by decide, by decide, Or.inl rfl, fun h => absurd rfl h, fun h => absurd rfl h⟩
    · exact ⟨by decide, by decide, Or.inl rfl, fun h => absurd rfl h, fun h => absurd rfl h⟩
    · exact ⟨by decide, by decide, Or.inl rfl, fun h => absurd rfl h,
        fun _ => ⟨by decide, by decide, fun _ => by decide +kernel⟩⟩
  covers := by decide
  idiom := fun _ _ _ _ _ _ => ⟨rfl, rfl⟩

def sampleJumpContext : MakeTrampolineContext 64 :=
  (funchookMakeTrampoline .x86_64 sampleDisassembler.decode sampleJump 0x401200).toOption.get
    (by decide +kernel)

theorem sampleJump_made :
    funchookMakeTrampoline .x86_64 sampleDisassembler.decode sampleJump 0x401200 =
      .ok sampleJumpContext := by
  decide +kernel

def sampleJumpEntry : FunchookEntry 64 where
  transit := List.replicate 21 0
  originalTargetFunc := 0x401200
  targetFunc := 0x401200
  hookFunc := 0x401000
  prehook := 0
  userData := 0
  flags := 0
  patchCodeSize := 20
  trampoline := sampleJumpContext.trampoline
  oldCode := readBytes sampleJump 0x401200 20
  newCode := List.replicate 20 0

def sampleJumpFixed : FunchookEntry 64 :=
  funchookFixCode .x86_64 0x403000 0x500010 sampleJumpEntry sampleJumpContext.ripDisp

theorem trampoline_relocated_exactly_sample :
    RelocatedExactly sampleJump 0x401200 (0x500010 + 72) sampleJumpInsns
      sampleJumpFixed.trampoline sampleJumpFixed.patchCodeSize.toNat :=
  @trampoline_relocated_exactly .x86_64 _ _ _ _ _ _ _ sampleJump_reported sampleJump_made
    (by decide +kernel) rfl rfl 0x403000

end Funchook.X86
