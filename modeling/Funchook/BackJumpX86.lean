import Funchook.PatchBoundsX86
import Funchook.DisasmCapstone

/-!
# Branches into the overwritten bytes (x86 and x86-64)

The scan after the loop rejects a function when an instruction left in place branches into the
first five bytes. Install overwrites more when the last instruction moved reaches further, the
instructions that were moved are not scanned, and the address of a 16-bit branch is not the one
that is compared. Those are the branches that a function may be accepted with.
-/

namespace Funchook.X86

open ByteMemory

variable {w : ℕ}

/-! ## Where the decoded instructions go -/

/-- The instructions moved to the trampoline, those left in place, and the bytes overwritten. -/
structure Placement (w : ℕ) where
  moved : List (CsInsn w)
  left : List (CsInsn w)
  size : ℕ

/-- Whether `handle_x86_get_pc_thunk` matches `src` bytes into the function. -/
def getPcThunkAt (cpu : Cpu) (m : Mem w) (func : Addr w) (src : ℕ) (insn : CsInsn w) : Bool :=
  (handleX86GetPcThunk cpu m func ⟨.zero, src, 0, [], 0⟩ insn.toInsn).isSome

/-- Whether `handle_x86_get_pc_by_call_and_pop` matches `src` bytes into the function. -/
def getPcByCallAndPopAt (cpu : Cpu) (m : Mem w) (func : Addr w) (src : ℕ) (insn : CsInsn w) :
    Bool :=
  (handleX86GetPcByCallAndPop cpu m func ⟨.zero, src, 0, [], 0⟩ insn.toInsn).isSome

/-- The loop at `src` bytes into the function. The call of an i386 idiom that reads the PC and its
`pop` are neither moved nor left: a `mov` replaces them. -/
def place (cpu : Cpu) (m : Mem w) (func : Addr w) : List (CsInsn w) → ℕ → Placement w
  | [], src => ⟨[], [], src⟩
  | insn :: rest, src =>
    if getPcThunkAt cpu m func src insn then ⟨[], rest, src + 5⟩
    else if getPcByCallAndPopAt cpu m func src insn then ⟨[], rest.drop 1, src + 6⟩
    else if src + insn.size ≥ rel2gJumpSize then ⟨[insn], rest, src + insn.size⟩
    else
      let p := place cpu m func rest (src + insn.size)
      { p with moved := insn :: p.moved }

/-- Strictly between `func` and `func + n`. -/
def Overwritten (func : Addr w) (n : ℕ) (a : Addr w) : Prop :=
  func < a ∧ a < func + BitVec.ofNat w n

/-- No relative branch, moved or left in place, leads into the `n` bytes that are overwritten. -/
def NoBranchInto (m : Mem w) (func : Addr w) (n : ℕ) (p : Placement w) : Prop :=
  ∀ insn, insn ∈ p.moved ∨ insn ∈ p.left → insn.IsBranch → ¬Overwritten func n (branchTarget m insn)

/-- The branches that the scan does not see: those that were moved, and those left in place that
have a 16-bit displacement or lead past the fifth byte. -/
def NoUnseenBranch (m : Mem w) (func : Addr w) (p : Placement w) : Prop :=
  (∀ insn ∈ p.moved, insn.IsBranch → ¬Overwritten func p.size (branchTarget m insn)) ∧
    ∀ insn ∈ p.left, insn.IsBranch →
      insn.encoding.immSize = 2 ∨ ¬branchTarget m insn < func + BitVec.ofNat w rel2gJumpSize →
        ¬Overwritten func p.size (branchTarget m insn)

theorem place_subset (cpu : Cpu) (m : Mem w) (func : Addr w) (insns : List (CsInsn w)) (src : ℕ) :
    ∀ insn, insn ∈ (place cpu m func insns src).moved ∨
      insn ∈ (place cpu m func insns src).left → insn ∈ insns := by
  induction insns generalizing src with
  | nil =>
    intro insn h
    rcases h with h | h <;> cases h
  | cons first rest ih =>
    intro insn h
    unfold place at h
    split at h
    · rcases h with h | h
      · cases h
      · exact List.mem_cons_of_mem _ h
    · split at h
      · rcases h with h | h
        · cases h
        · exact List.mem_cons_of_mem _ (List.mem_of_mem_drop h)
      · split at h
        · rcases h with h | h
          · rw [List.mem_singleton.mp h]
            exact List.mem_cons_self
          · exact List.mem_cons_of_mem _ h
        · rcases h with h | h
          · rcases List.mem_cons.mp h with rfl | h
            · exact List.mem_cons_self
            · exact List.mem_cons_of_mem _ (ih _ insn (Or.inl h))
          · exact List.mem_cons_of_mem _ (ih _ insn (Or.inr h))

/-! ## What acceptance tells -/

theorem CsReported.fits {m : Mem w} {insn : CsInsn w} (h : CsReported m insn) :
    InsnFits insn.toInsn := by
  have himm := h.imm
  have hdisp := h.disp
  refine ⟨h.size_pos, h.size_le, ?_, ?_⟩
  · intro h32
    change insn.relDisp.size = 32 at h32
    show 1 ≤ insn.relDisp.offset ∧ insn.relDisp.offset + 4 ≤ insn.size
    unfold CsInsn.relDisp at h32 ⊢
    split at h32
    · rename_i hcond
      rw [if_pos hcond]
      dsimp only at h32 ⊢
      omega
    · exact absurd h32 (by simp)
  · intro h32
    change insn.relImm.size = 32 at h32
    show 1 ≤ insn.relImm.offset ∧ insn.relImm.offset + 4 ≤ insn.size
    unfold CsInsn.relImm at h32 ⊢
    split at h32
    · rename_i hcond
      rw [if_pos hcond]
      dsimp only at h32 ⊢
      omega
    · exact absurd h32 (by simp)

/-- The loop has finished, and the scan has passed. -/
structure Scanned (func : Addr w) (p : Placement w) (ctx : MakeTrampolineContext w) : Prop where
  upper : p.size ≤ 19
  back : ctx.ripDisp.disp0.dstAddr = func + BitVec.ofNat w p.size
  scan : ∀ insn ∈ p.left, jumpsBack func insn.toInsn = false

theorem finishTrampoline_scanned {func : Addr w} {ctx ctx' : MakeTrampolineContext w}
    {moved left : List (CsInsn w)} (hupper : ctx.src ≤ 19)
    (h : finishTrampoline func ctx (left.map CsInsn.toInsn) = .ok ctx') :
    Scanned func ⟨moved, left, ctx.src⟩ ctx' := by
  refine ⟨hupper, by rw [finishTrampoline_ok h], ?_⟩
  intro insn hmem
  unfold finishTrampoline at h
  dsimp only at h
  split at h
  · cases h
  · rename_i hany
    have hnone := List.any_eq_false.mp (Bool.eq_false_iff.mpr hany) insn.toInsn
      (List.mem_map_of_mem hmem)
    exact Bool.eq_false_iff.mpr hnone

/-- **The loop.** When it does not fail, the scan has passed or no instruction is a branch. -/
theorem moveInsns_scanned {cpu : Cpu} {m : Mem w} {func : Addr w} {insns : List (CsInsn w)}
    (hreport : ∀ insn ∈ insns, CsReported m insn) {ctx ctx' : MakeTrampolineContext w}
    (hsrc : ctx.src < 5) (h : moveInsns cpu m func (insns.map CsInsn.toInsn) ctx = .ok ctx') :
    Scanned func (place cpu m func insns ctx.src) ctx' ∨ ∀ insn ∈ insns, ¬insn.IsBranch := by
  induction insns generalizing ctx with
  | nil => exact Or.inr fun insn hmem => absurd hmem List.not_mem_nil
  | cons insn rest ih =>
    have hinsn := hreport insn List.mem_cons_self
    have hthunkAt : getPcThunkAt cpu m func ctx.src insn = _ :=
      @handleX86GetPcThunk_isSome _ _ _ _ ctx _ insn.toInsn rfl
    have hpopAt : getPcByCallAndPopAt cpu m func ctx.src insn = _ :=
      @handleX86GetPcByCallAndPop_isSome _ _ _ _ ctx _ insn.toInsn rfl
    have hle := hinsn.size_le
    rw [List.map_cons] at h
    rw [place, hthunkAt, hpopAt]
    cases moveInsns_round h with
    | thunk hthunk hfinish =>
      have hsrc₁ := handleX86GetPcThunk_src hthunk
      rw [hthunk, Option.isSome_some, if_pos rfl, ← hsrc₁]
      exact Or.inl (finishTrampoline_scanned (by omega) hfinish)
    | pop hthunk hpop hfinish =>
      have hsrc₁ := handleX86GetPcByCallAndPop_src hpop
      rw [hthunk, if_neg (by simp), hpop, Option.isSome_some, if_pos rfl, ← hsrc₁]
      rw [← List.map_tail, ← List.drop_one] at hfinish
      exact Or.inl (finishTrampoline_scanned (by omega) hfinish)
    | @last ctx₁ hthunk hpop hmove hge hfinish =>
      have hsrc₁ : ctx₁.src = ctx.src + insn.size := (moveInsn_moved hmove).src
      rw [hthunk, if_neg (by simp), hpop, if_neg (by simp), if_pos (hsrc₁ ▸ hge), ← hsrc₁]
      exact Or.inl (finishTrampoline_scanned (by omega) hfinish)
    | @next ctx₁ hthunk hpop hmove hlt hrest =>
      have hmoved := moveInsn_moved hmove
      have hsrc₁ : ctx₁.src = ctx.src + insn.size := hmoved.src
      rw [hthunk, if_neg (by simp), hpop, if_neg (by simp),
        if_neg (hsrc₁ ▸ Nat.not_le.mpr hlt), ← hsrc₁]
      rcases ih (fun i hi => hreport i (List.mem_cons_of_mem _ hi)) hlt hrest with hscan | hnone
      · exact Or.inl ⟨hscan.upper, hscan.back, hscan.scan⟩
      · refine Or.inr ?_
        intro i hi
        rcases List.mem_cons.mp hi with rfl | hi
        · intro hbranch
          exact hinsn.relImm_size_ne hbranch
            (hmoved.no_field hinsn.fits (show i.size < 5 by omega)).2
        · exact hnone i hi

/-- `entry->patch_code_size`, as `funchook_fix_code` computes it. -/
def patchSize (func : Addr w) (disp : IpDisplacement w) : ℕ :=
  (displacement func disp.disp0.dstAddr).toNat

theorem Scanned.patchSize {cpu : Cpu} {func : Addr cpu.bits} {p : Placement cpu.bits}
    {ctx : MakeTrampolineContext cpu.bits} (h : Scanned func p ctx) :
    patchSize func ctx.ripDisp = p.size := by
  have hupper := h.upper
  have hpow : 2 ^ 32 ≤ 2 ^ cpu.bits := by cases cpu <;> decide
  rw [X86.patchSize, displacement, h.back, BitVec.toNat_setWidth, add_sub_toNat func (by omega),
    Nat.mod_eq_of_lt (by omega)]

/-- The scan rejects a branch left in place that leads into the first five bytes. -/
theorem Scanned.seen {m : Mem w} {func : Addr w} {p : Placement w} {n : ℕ}
    {ctx : MakeTrampolineContext w} (h : Scanned func p ctx) {insn : CsInsn w}
    (hreport : CsReported m insn) (hmem : insn ∈ p.left) (hbranch : insn.IsBranch)
    (hsize : insn.encoding.immSize ≠ 2)
    (hlt : branchTarget m insn < func + BitVec.ofNat w rel2gJumpSize) :
    ¬Overwritten func n (branchTarget m insn) := by
  intro hin
  have hscan := h.scan insn hmem
  have haddr : insn.toInsn.relImm.addr = branchTarget m insn := hreport.relImm_addr hbranch hsize
  rw [jumpsBack, haddr, BitVec.ult_eq_decide, BitVec.ult_eq_decide,
    decide_eq_true (BitVec.lt_def.mp hin.1), decide_eq_true (BitVec.lt_def.mp hlt)] at hscan
  cases hscan

/-- **Branches into the patch.** An accepted function has no relative branch into the bytes that
install overwrites if and only if it has none that the scan does not see. -/
theorem no_branch_into_patch_iff {cpu : Cpu} {cs : CsDisasm cpu.bits} {m : Mem cpu.bits}
    {func : Addr cpu.bits} {insns : List (CsInsn cpu.bits)} (hdecode : cs m func = .ok insns)
    (hreport : ∀ insn ∈ insns, CsReported m insn) {ctx : MakeTrampolineContext cpu.bits}
    (hmake : funchookMakeTrampoline cpu (csDecode cs) m func = .ok ctx) :
    NoBranchInto m func (patchSize func ctx.ripDisp) (place cpu m func insns 0) ↔
      NoUnseenBranch m func (place cpu m func insns 0) := by
  have hsubset := place_subset cpu m func insns 0
  have hloop : Scanned func (place cpu m func insns 0) ctx ∨ ∀ insn ∈ insns, ¬insn.IsBranch := by
    unfold funchookMakeTrampoline csDecode at hmake
    rw [hdecode] at hmake
    dsimp only [Except.map] at hmake
    split at hmake
    · cases hmake
    · rename_i ctx₁ hmove
      split at hmake
      · cases hmake
        exact moveInsns_scanned hreport (Nat.zero_lt_succ 4) hmove
      · cases hmake
  rcases hloop with hscan | hnone
  · rw [hscan.patchSize]
    constructor
    · intro h
      exact ⟨fun insn hmem => h insn (Or.inl hmem), fun insn hmem hb _ => h insn (Or.inr hmem) hb⟩
    · intro h insn hmem hbranch
      rcases hmem with hmem | hmem
      · exact h.1 insn hmem hbranch
      · by_cases hseen : insn.encoding.immSize = 2 ∨
            ¬branchTarget m insn < func + BitVec.ofNat cpu.bits rel2gJumpSize
        · exact h.2 insn hmem hbranch hseen
        · obtain ⟨hsize, hlt⟩ := not_or.mp hseen
          exact hscan.seen (hreport insn (hsubset insn (Or.inr hmem))) hmem hbranch hsize
            (not_not.mp hlt)
  · constructor
    · intro _
      exact ⟨fun insn hmem hb => absurd hb (hnone insn (hsubset insn (Or.inl hmem))),
        fun insn hmem hb => absurd hb (hnone insn (hsubset insn (Or.inr hmem)))⟩
    · intro _ insn hmem hb
      exact absurd hb (hnone insn (hsubset insn hmem))

/-- What Capstone reports for a `nop`. -/
def csNop (addr : Addr w) : CsInsn w :=
  ⟨addr, 1, [0x90], [], ⟨0, 0, 0, 0⟩, 0, []⟩

/-- What Capstone reports for a `jmp rel32`. -/
def csJmp (m : Mem 64) (addr : Addr 64) : CsInsn 64 :=
  ⟨addr, 5, readBytes m addr 5, [.branchRelative], ⟨1, 4, 0, 0⟩, 0,
    [.imm (addr + 5 + (readWord 4 m (addr + 1) : BitVec 32).signExtend 64)]⟩

/-- Code that is one `jmp rel32` after `n` times `nop`. -/
def csNopsJmp (n : ℕ) (m : Mem 64) (func : Addr 64) : List (CsInsn 64) :=
  (List.range n).map (fun i => csNop (func + BitVec.ofNat 64 i)) ++
    [csJmp m (func + BitVec.ofNat 64 n)]

theorem csJmp_reported {m : Mem 64} {addr : Addr 64} : CsReported m (csJmp m addr) where
  size_pos := show 1 ≤ 5 by decide
  size_le := show 5 ≤ 15 by decide
  bytes := by
    intro i hi
    show (readBytes m addr 5)[i]? = _
    rw [List.getElem?_eq_getElem (by rw [readBytes_length]; exact hi), getElem_readBytes]
    rfl
  branch := fun _ => ⟨show 1 ≠ 0 by decide, Or.inr (Or.inr rfl)⟩
  imm := show 1 + 4 ≤ 5 by decide
  disp := show 0 + 0 ≤ 5 by decide

theorem csNop_reported {m : Mem 64} {addr : Addr 64} (h : m addr = 0x90) :
    CsReported m (csNop addr) where
  size_pos := Nat.le_refl 1
  size_le := show 1 ≤ 15 by decide
  bytes := by
    intro i hi
    obtain rfl : i = 0 := Nat.lt_one_iff.mp hi
    show some (0x90 : Byte) = some (m (addr + BitVec.ofNat 64 0))
    rw [show addr + BitVec.ofNat 64 0 = addr from BitVec.add_zero addr, h]
  branch := fun h => absurd h List.not_mem_nil
  imm := show 0 + 0 ≤ 1 by decide
  disp := show 0 + 0 ≤ 1 by decide

theorem csNopsJmp_reported {n : ℕ} {m : Mem 64} {func : Addr 64}
    (hnop : ∀ i < n, m (func + BitVec.ofNat 64 i) = 0x90) :
    ∀ insn ∈ csNopsJmp n m func, CsReported m insn := by
  intro insn hmem
  rcases List.mem_append.mp hmem with hmem | hmem
  · obtain ⟨i, hi, rfl⟩ := List.mem_map.mp hmem
    exact csNop_reported (hnop i (List.mem_range.mp hi))
  · rw [List.mem_singleton.mp hmem]
    exact csJmp_reported

/-- `nop; L: nop; jmp L` at `0x401300`, with a displacement of 32 bits. -/
def loopInPatch : Mem 64 :=
  write (sampleWorld : World 64).bytes 0x401300 [0x90, 0x90, 0xe9, 0xfa, 0xff, 0xff, 0xff]

/-- **A loop inside the patch is accepted.** The `jmp` is moved to the trampoline, and leads back
to the second byte of the function. -/
theorem loop_in_patch_accepted :
    (∀ insn ∈ csNopsJmp 2 loopInPatch 0x401300, CsReported loopInPatch insn) ∧
      (funchookMakeTrampoline .x86_64 (csDecode fun m func => .ok (csNopsJmp 2 m func)) loopInPatch
        0x401300).map (fun ctx => patchSize 0x401300 ctx.ripDisp) = .ok 7 ∧
      ¬NoBranchInto loopInPatch 0x401300 7
        (place .x86_64 loopInPatch 0x401300 (csNopsJmp 2 loopInPatch 0x401300) 0) := by
  refine ⟨csNopsJmp_reported (by decide +kernel), by decide +kernel, ?_⟩
  intro h
  refine h (csJmp loopInPatch 0x401302) (Or.inl ?_) List.mem_cons_self ?_
  · show _ ∈ csNopsJmp 2 loopInPatch 0x401300
    decide +kernel
  · exact ⟨by decide +kernel, by decide +kernel⟩

def csJumpContext : MakeTrampolineContext 64 :=
  (funchookMakeTrampoline .x86_64 (csDecode fun m func => .ok (csNopsJmp 2 m func)) sampleJump
    0x401200).toOption.get (by decide +kernel)

/-- Two `nop` and a jump to `0x402000`. -/
theorem no_branch_into_patch_iff_sample :
    NoBranchInto sampleJump 0x401200 (patchSize 0x401200 csJumpContext.ripDisp)
      (place .x86_64 sampleJump 0x401200 (csNopsJmp 2 sampleJump 0x401200) 0) := by
  refine (@no_branch_into_patch_iff .x86_64 (fun m func => .ok (csNopsJmp 2 m func)) sampleJump
    0x401200 _ rfl (csNopsJmp_reported (by decide +kernel)) csJumpContext
    (by decide +kernel)).mpr ⟨?_, ?_⟩
  · intro insn hmem hbranch hin
    have hall : ∀ insn ∈ csNopsJmp 2 sampleJump 0x401200, insn.IsBranch →
        ¬branchTarget sampleJump insn < 0x401200 + 7 := by
      decide +kernel
    exact hall insn hmem hbranch hin.2
  · intro insn hmem
    exact absurd hmem List.not_mem_nil

end Funchook.X86
